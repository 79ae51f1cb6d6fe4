import ProtoSchema.Yaml.Event

/-!
The one document of a YAML text, ready to be read as data.

A document is the list of its node events. An alias is replaced by the
number of its anchor, and each anchor number is mapped to the place where
its node starts. Anchors are numbered by how many distinct names were seen
before them, so a name used twice keeps its number, and the next new name
is given that same number. The place of a number is the last one given to
it. An alias must follow its anchor. A text with no document holds the
single item `void`, and a text with two documents is refused.

Main definitions: `Yaml.Item`, `Yaml.Document` and `Document.ofText`.
-/

namespace ProtoSchema

namespace Yaml

/-- A node event of a document. -/
inductive Item where
  /-- An alias, by the number of its anchor. -/
  | alias (id : Nat)
  | scalar (tag : Option (List UInt8)) (text : String) (style : ScalarStyle)
  | sequenceStart (tag : Option (List UInt8))
  | sequenceEnd
  | mappingStart (tag : Option (List UInt8))
  | mappingEnd
  /-- The stream holds no document. -/
  | void
  deriving Repr, Inhabited

/-- A document: its node events, and where the node of each anchor number starts. -/
structure Document where
  items : Array Item
  anchors : List (Nat × Nat) := []
  deriving Repr, Inhabited

def assocSet {α : Type} [BEq α] (xs : List (α × Nat)) (k : α) (v : Nat) : List (α × Nat) :=
  if xs.any (·.1 == k) then xs.map fun p => if p.1 == k then (k, v) else p else xs ++ [(k, v)]

/-- A document being loaded: the items so far, the number of each anchor name, and
the place of each anchor number. -/
structure Loading where
  items : Array Item := #[]
  names : List (String × Nat) := []
  places : List (Nat × Nat) := []
  deriving Inhabited

namespace Loading

def anchorAt (l : Loading) : Option String → Loading
  | none => l
  | some a =>
    let id := l.names.length
    { l with names := assocSet l.names a id, places := assocSet l.places id l.items.size }

def add (l : Loading) : Event → Except String Loading
  | .alias name =>
    match l.names.lookup name with
    | some id => .ok { l with items := l.items.push (.alias id) }
    | none => .error "unknown anchor"
  | .scalar anchor tag text style =>
    .ok { l.anchorAt anchor with items := l.items.push (.scalar tag text style) }
  | .sequenceStart anchor tag => .ok { l.anchorAt anchor with items := l.items.push (.sequenceStart tag) }
  | .sequenceEnd => .ok { l with items := l.items.push .sequenceEnd }
  | .mappingStart anchor tag => .ok { l.anchorAt anchor with items := l.items.push (.mappingStart tag) }
  | .mappingEnd => .ok { l with items := l.items.push .mappingEnd }
  | _ => .ok l

end Loading

def documentEvents (events : List Event) : List (List Event) :=
  let (done, current) := events.foldl (fun (done, current) e => match e, current with
    | .documentStart, _ => (done, some [])
    | .documentEnd, some evs => (done ++ [evs.reverse], none)
    | _, some evs => (done, some (e :: evs))
    | _, none => (done, none)) (([] : List (List Event)), (none : Option (List Event)))
  match current with
  | some evs => done ++ [evs.reverse]
  | none => done

/-- The document of a YAML text; `void` when it has none. -/
def Document.ofText (text : String) : Except String Document := do
  let events ← Token.scan text >>= Event.parse
  match documentEvents events.toList with
  | [] => return { items := #[.void] }
  | [evs] =>
    let l ← evs.foldlM Loading.add {}
    return { items := l.items, anchors := l.places }
  | _ => throw "deserializing from YAML containing more than one document is not supported"

end Yaml

end ProtoSchema
