import Mathlib.Data.List.Basic
import ProtoSchema.Proofs.SymbolTable.Declared

/-!
The declarations a file makes. They are read off its syntax, in the order the symbol table takes
them (`SchemaFile.decls`): each part of its package, outermost first, then each message with its
fields, map entry messages, groups (a field and a message), oneofs with their members, nested
messages, enums and extend blocks, then its enums with their values beside them, its services
with their methods, and its extensions. Filling the table is declaring these one after the
other (`SymbolTable.build_eq_foldl`).

Only the package parts declare packages, each in the file making it
(`SchemaFile.declaresPackage_iff`): a file declares package `n` exactly when its package is `n`
or lies inside `n`.
-/

namespace ProtoSchema

/-- One declaration: the file making it, the scope and the name declared in it, and what the
table records about it. -/
structure SymbolDecl where
  file : Nat
  scope : String
  name : String
  kind : SymbolKind
  span : Span
  info : SymbolInfo
  deriving Inhabited

namespace SymbolDecl

def fullName (d : SymbolDecl) : String := qualify d.scope d.name

def symbol (d : SymbolDecl) : Symbol := ⟨d.kind, d.file, d.info⟩

end SymbolDecl

/-! ### The declarations of a file -/

def Enum.values (e : Enum) : List EnumValue :=
  e.body.filterMap fun el => match el with
    | .value v => some v
    | _ => none

/-- An enum declares its own name, then its values beside it, in `scope`. -/
def Enum.decls (file : Nat) (scope : String) (e : Enum) : List SymbolDecl :=
  ⟨file, scope, e.name.value, .enum, e.name.span, .enum (e.values.map (·.name.value))⟩ ::
    e.values.map fun v => ⟨file, scope, v.name.value, .enumValue, v.name.span, .none⟩

mutual

/-- A message declares its own name in `scope`, then what its body declares inside it. -/
def Message.decls (file : Nat) (scope : String) : Message → List SymbolDecl
  | .mk name body _ =>
    ⟨file, scope, name.value, .message, name.span, .message (extensionRangesOf body)⟩ ::
      MessageElement.bodyDecls file (qualify scope name.value) body

def MessageElement.bodyDecls (file : Nat) (full : String) : List MessageElement → List SymbolDecl
  | [] => []
  | e :: rest => MessageElement.decls file full e ++ MessageElement.bodyDecls file full rest

/-- What one statement of the body of the message of full name `full` declares. -/
def MessageElement.decls (file : Nat) (full : String) : MessageElement → List SymbolDecl
  | .field f => [⟨file, full, f.name.value, .field, f.name.span, .none⟩]
  | .map m =>
    [⟨file, full, m.name.value, .field, m.name.span, .none⟩,
      ⟨file, full, mapEntryName m.name.value, .message, m.name.span, .message []⟩]
  | .group g => Group.decls file full none g
  | .oneof (.mk name body _) =>
    ⟨file, full, name.value, .oneof, name.span, .none⟩ :: OneofElement.bodyDecls file full body
  | .message m => Message.decls file full m
  | .enum e => e.decls file full
  | .extend (.mk extendee body _) => ExtendElement.bodyDecls file full extendee.value body
  | .extensions _ => []
  | .reserved _ => []
  | .option _ => []

/-- A group declares in `scope` its field (an extension of `extendee` when given), its message,
then what its body declares inside the message. -/
def Group.decls (file : Nat) (scope : String) (extendee : Option String) : Group → List SymbolDecl
  | .mk _ _ name number _ body _ =>
    ⟨file, scope, groupFieldName name.value, (extendee.map fun _ => SymbolKind.extension).getD .field,
      name.span, (extendee.map fun x =>
        SymbolInfo.extension x (qualify scope (groupFieldName name.value)) number.value).getD .none⟩ ::
    ⟨file, scope, name.value, .message, name.span, .message (extensionRangesOf body)⟩ ::
      MessageElement.bodyDecls file (qualify scope name.value) body

def OneofElement.bodyDecls (file : Nat) (full : String) : List OneofElement → List SymbolDecl
  | [] => []
  | .field f :: rest => ⟨file, full, f.name.value, .field, f.name.span, .none⟩ :: OneofElement.bodyDecls file full rest
  | .group g :: rest => Group.decls file full none g ++ OneofElement.bodyDecls file full rest
  | .option _ :: rest => OneofElement.bodyDecls file full rest

def ExtendElement.bodyDecls (file : Nat) (scope extendee : String) : List ExtendElement → List SymbolDecl
  | [] => []
  | .field f :: rest =>
    ⟨file, scope, f.name.value, .extension, f.name.span, .extension extendee (qualify scope f.name.value) f.number.value⟩ ::
      ExtendElement.bodyDecls file scope extendee rest
  | .group g :: rest => Group.decls file scope (some extendee) g ++ ExtendElement.bodyDecls file scope extendee rest

end

def packageDecls (file : Nat) (span : Span) : String → List String → List SymbolDecl
  | _, [] => []
  | scope, part :: rest => ⟨file, scope, part, .package, span, .package [file]⟩ :: packageDecls file span (qualify scope part) rest

def packageParts (n : String) : List String := (n.toList.splitOn '.').map String.ofList

/-- A service declares its own name in `scope`, then its methods inside it. -/
def Service.decls (file : Nat) (scope : String) (svc : Service) : List SymbolDecl :=
  ⟨file, scope, svc.name.value, .service, svc.name.span, .none⟩ :: svc.body.flatMap fun el => match el with
    | .method m => [⟨file, qualify scope svc.name.value, m.name.value, .method, m.name.span, .none⟩]
    | .option _ => []

/-- Everything a file declares, in the order the table takes it: its package parts, then in its
package its messages, enums, services and extensions. -/
def SchemaFile.decls (file : Nat) (s : SchemaFile) : List SymbolDecl :=
  ((s.package.map fun p => packageDecls file p.name.span "" (packageParts p.name.value)).getD []) ++
    s.messages.flatMap (Message.decls file s.scope) ++ s.enums.flatMap (Enum.decls file s.scope) ++
    s.services.flatMap (Service.decls file s.scope) ++
    s.extendBlocks.flatMap fun x => ExtendElement.bodyDecls file s.scope x.extendee.value x.body

/-! ### Filling the table is declaring the declarations in order -/

namespace Collected

def declare (names : Array String) (c : Collected) (d : SymbolDecl) : Collected :=
  c.add names d.file d.scope d.name d.kind d.span d.info

variable {names : Array String} {file : Nat}

theorem addEnum_eq_foldl (c : Collected) (scope : String) (e : Enum) :
    c.addEnum names file scope e = (e.decls file scope).foldl (declare names) c := by
  rw [addEnum, Enum.decls, List.foldl_cons, List.foldl_map]
  rfl

theorem foldl_declare_body :
    (∀ scope m c, addMessage names file scope m c = (Message.decls file scope m).foldl (declare names) c) ∧
    (∀ full body c, addBody names file full body c =
      (MessageElement.bodyDecls file full body).foldl (declare names) c) ∧
    (∀ full e c, addElement names file full e c = (MessageElement.decls file full e).foldl (declare names) c) ∧
    (∀ scope extendee body c, addExtend names file scope extendee body c =
      (ExtendElement.bodyDecls file scope extendee body).foldl (declare names) c) ∧
    (∀ scope extendee g c, addGroup names file scope extendee g c =
      (Group.decls file scope extendee g).foldl (declare names) c) ∧
    (∀ full body c, addOneof names file full body c =
      (OneofElement.bodyDecls file full body).foldl (declare names) c) := by
  apply addMessage.mutual_induct names file
  case _ => -- a message: its own name, then its body
    intro scope name body decl c c' ih
    rw [addMessage, Message.decls, List.foldl_cons]
    exact ih
  case _ => intro full f c; rfl
  case _ => intro full m c; rfl
  case _ => intro full g c ih; rw [addElement, MessageElement.decls]; exact ih
  case _ => -- a oneof: its name, then its members
    intro full name body decl c ih
    rw [addElement, MessageElement.decls, List.foldl_cons]
    exact ih
  case _ => intro full m c ih; rw [addElement, MessageElement.decls]; exact ih
  case _ => intro full e c; rw [addElement, MessageElement.decls]; exact addEnum_eq_foldl c full e
  case _ => intro full extendee body decl c ih; rw [addElement, MessageElement.decls]; exact ih
  case _ => intro full r c; rfl
  case _ => intro full r c; rfl
  case _ => intro full o c; rfl
  case _ => -- a group: its field, its message, then its body
    intro scope extendee label keywordSpan name number options body decl c fieldName kind info hki c₁ c₂ ih
    simp only [addGroup]
    rw [hki, Group.decls, List.foldl_cons, List.foldl_cons]
    cases extendee <;> simp only [Prod.mk.injEq] at hki <;> obtain ⟨rfl, rfl⟩ := hki <;> exact ih
  case _ => intro full c; rfl
  case _ =>
    intro full e rest c ih₁ ih₂
    rw [addBody, MessageElement.bodyDecls, List.foldl_append, ← ih₁]
    exact ih₂
  case _ => intro full c; rfl
  case _ =>
    intro full f rest c ih
    rw [addOneof, OneofElement.bodyDecls, List.foldl_cons]
    exact ih
  case _ =>
    intro full g rest c ih₁ ih₂
    rw [addOneof, OneofElement.bodyDecls, List.foldl_append, ← ih₁]
    exact ih₂
  case _ => intro full o rest c ih; rw [addOneof, OneofElement.bodyDecls]; exact ih
  case _ => intro scope extendee c; rfl
  case _ =>
    intro scope extendee f rest c ih
    rw [addExtend, ExtendElement.bodyDecls, List.foldl_cons]
    exact ih
  case _ =>
    intro scope extendee g rest c ih₁ ih₂
    rw [addExtend, ExtendElement.bodyDecls, List.foldl_append, ← ih₁]
    exact ih₂

theorem addPackage_eq_foldl (c : Collected) (p : Package) :
    (c.addPackage names file p).1 = (packageDecls file p.name.span "" (packageParts p.name.value)).foldl (declare names) c := by
  unfold addPackage
  suffices h : ∀ (parts : List String) (acc : Collected × String),
      (parts.foldl (fun (acc : Collected × String) part =>
        (acc.1.add names file acc.2 part .package p.name.span (.package [file]), qualify acc.2 part)) acc).1 =
      (packageDecls file p.name.span acc.2 parts).foldl (declare names) acc.1 from h _ (c, "")
  intro parts
  induction parts with
  | nil => exact fun _ => rfl
  | cons part rest ih => exact fun acc => ih _

theorem addFile_eq_foldl (c : Collected) {s : SchemaFile} (hnamed : s.PackageNamed) :
    c.addFile names file s = (s.decls file).foldl (declare names) c := by
  obtain ⟨hmsg, -, -, hext, -, -⟩ := @foldl_declare_body names file
  unfold addFile SchemaFile.decls
  dsimp only
  rw [List.foldl_append, List.foldl_append, List.foldl_append, List.foldl_append, List.foldl_flatMap,
    List.foldl_flatMap, List.foldl_flatMap, List.foldl_flatMap]
  -- the package parts come first, and leave the package as the scope
  split
  case' h_1 =>
    rename_i p hp
    have hsc : (c.addPackage names file p).2 = s.scope := by
      rw [Collected.addPackage_scope c names file p (hnamed p hp)]
      simp [SchemaFile.scope, hp]
    rw [hsc, addPackage_eq_foldl, hp]
  case' h_2 =>
    rename_i hp
    have hsc : "" = s.scope := by simp [SchemaFile.scope, hp]
    rw [hsc, hp]
  all_goals
    dsimp only [Option.map_some, Option.map_none, Option.getD_some, Option.getD_none]
    congr 1
    · funext c x
      cases x
      exact hext _ _ _ _
    · congr 1
      · funext c svc
        rw [Service.decls, List.foldl_cons, List.foldl_flatMap]
        congr 1
        funext c el
        cases el <;> rfl
      · congr 1
        · funext c e
          exact addEnum_eq_foldl c _ e
        · congr 1
          funext c m
          exact hmsg _ _ _

end Collected

/-! ### What the declarations of a file are -/

def WithinPackage (pkg n : String) : Prop := pkg = n ∨ (n ++ ".").toList <+: pkg.toList

namespace SymbolDecl

def DeclaresPackage (P : List SymbolDecl) (n : String) (i : Nat) : Prop :=
  ∃ d ∈ P, d.fullName = n ∧ d.kind = .package ∧ d.file = i

theorem declaresPackage_append_singleton {P : List SymbolDecl} {d : SymbolDecl} {n : String} {i : Nat} :
    DeclaresPackage (P ++ [d]) n i ↔ DeclaresPackage P n i ∨ (d.fullName = n ∧ d.kind = .package ∧ d.file = i) := by
  simp [DeclaresPackage, or_and_right, exists_or]

end SymbolDecl

variable {file : Nat}

def NonPackageIn (file : Nat) (l : List SymbolDecl) : Prop := ∀ d ∈ l, d.file = file ∧ d.kind ≠ .package

theorem groupKind_ne_package (extendee : Option String) :
    (extendee.map fun _ => SymbolKind.extension).getD .field ≠ .package := by
  cases extendee <;> simp

theorem nonPackage_body :
    (∀ scope m, NonPackageIn file (Message.decls file scope m)) ∧
    (∀ full body, NonPackageIn file (MessageElement.bodyDecls file full body)) ∧
    (∀ full e, NonPackageIn file (MessageElement.decls file full e)) ∧
    (∀ scope extendee body, NonPackageIn file (ExtendElement.bodyDecls file scope extendee body)) ∧
    (∀ scope extendee g, NonPackageIn file (Group.decls file scope extendee g)) ∧
    (∀ full body, NonPackageIn file (OneofElement.bodyDecls file full body)) := by
  apply Message.decls.mutual_induct
  all_goals
    intros
    simp_all [NonPackageIn, Message.decls, MessageElement.bodyDecls, MessageElement.decls, Group.decls,
      OneofElement.bodyDecls, ExtendElement.bodyDecls, Enum.decls, groupKind_ne_package, or_imp, forall_and]

theorem Enum.nonPackage_decls (scope : String) (e : Enum) : NonPackageIn file (e.decls file scope) := by
  simp [NonPackageIn, Enum.decls]

theorem Service.nonPackage_decls (scope : String) (svc : Service) : NonPackageIn file (svc.decls file scope) := by
  intro d hd
  simp only [Service.decls, List.mem_cons, List.mem_flatMap] at hd
  rcases hd with rfl | ⟨el, -, hd⟩
  · exact ⟨rfl, by simp⟩
  · cases el <;> simp_all

/-! ### The packages a file declares -/

variable {span : Span}

theorem mem_packageDecls : ∀ {scope : String} {parts : List String} {d : SymbolDecl},
    d ∈ packageDecls file span scope parts → d.file = file ∧ d.kind = .package ∧ d.info = .package [file]
  | _, [], _, h => by simp [packageDecls] at h
  | _, _ :: _, _, h => by
    rw [packageDecls, List.mem_cons] at h
    rcases h with rfl | h
    · exact ⟨rfl, rfl, rfl⟩
    · exact mem_packageDecls h

theorem exists_packageDecls_fullName {n : String} : ∀ (scope : String) (parts : List String),
    (∃ d ∈ packageDecls file span scope parts, d.fullName = n) ↔
      ∃ q, q ≠ [] ∧ q <+: parts ∧ q.foldl qualify scope = n
  | scope, [] => by simp [packageDecls]
  | scope, part :: rest => by
    simp only [packageDecls, List.mem_cons, or_and_right, exists_or, exists_eq_left]
    rw [exists_packageDecls_fullName (qualify scope part) rest]
    -- a non-empty prefix of the parts is the first part followed by a prefix of the others
    constructor
    · rintro (h | ⟨q, -, hpre, h⟩)
      · exact ⟨[part], List.cons_ne_nil _ _, List.cons_prefix_cons.mpr ⟨rfl, List.nil_prefix⟩, h⟩
      · exact ⟨part :: q, List.cons_ne_nil _ _, List.cons_prefix_cons.mpr ⟨rfl, hpre⟩, h⟩
    · rintro ⟨q, hq, hpre, h⟩
      rcases List.prefix_cons_iff.mp hpre with rfl | ⟨t, rfl, ht⟩
      · exact absurd rfl hq
      · by_cases ht0 : t = []
        · subst ht0
          exact Or.inl h
        · exact Or.inr ⟨t, ht0, ht, h⟩

theorem IdentName.splitOn_eq {pv : String} (h : IdentName pv) :
    ∃ a rest, pv.toList.splitOn '.' = a :: rest ∧ a ≠ [] := by
  obtain ⟨c, cs, hpv, hc⟩ := h
  have hdot : (c == '.') = false := by
    cases hcd : c == '.'
    · rfl
    · rw [beq_iff_eq.mp hcd] at hc
      simp [Lexer.isIdentStart] at hc
  obtain ⟨first, rest, hsplit⟩ := List.exists_cons_of_ne_nil (List.splitOn_ne_nil '.' cs)
  refine ⟨c :: first, rest, ?_, List.cons_ne_nil _ _⟩
  rw [hpv, List.splitOn_cons_eq_if_modifyHead, hdot, if_neg Bool.false_ne_true, hsplit]
  rfl

theorem foldl_qualify_cons {a : List Char} (ha : a ≠ []) (rest : List (List Char)) :
    ((a :: rest).map String.ofList).foldl qualify "" = String.ofList (a ++ rest.flatMap ('.' :: ·)) := by
  have hfirst : qualify "" (String.ofList a) = String.ofList a := by simp [qualify]
  rw [List.map_cons, List.foldl_cons, hfirst]
  exact foldl_qualify_ofList rest a ha

theorem exists_prefix_foldl_qualify {pv n : String} (h : IdentName pv) :
    (∃ q, q ≠ [] ∧ q <+: packageParts pv ∧ q.foldl qualify "" = n) ↔ WithinPackage pv n := by
  obtain ⟨a, rest, hsplit, ha⟩ := h.splitOn_eq
  have hpv : pv.toList = a ++ rest.flatMap ('.' :: ·) := by
    rw [append_flatMap_eq_intercalate, ← hsplit, List.intercalate_splitOn]
  have hparts : packageParts pv = (a :: rest).map String.ofList := by rw [packageParts, hsplit]
  rw [hparts]
  constructor
  · rintro ⟨q, hq, hpre, rfl⟩
    -- the prefix is the first part and a prefix `r` of the others; the package goes on after `r`
    obtain ⟨Q, hQ, rfl⟩ := List.prefix_map_iff.mp hpre
    rcases List.prefix_cons_iff.mp hQ with rfl | ⟨r, rfl, ⟨u, rfl⟩⟩
    · exact absurd rfl hq
    rw [foldl_qualify_cons ha]
    cases u with
    | nil =>
      left
      rw [← String.toList_inj, String.toList_ofList, hpv, List.append_nil]
    | cons b bs =>
      right
      refine ⟨b ++ bs.flatMap ('.' :: ·), ?_⟩
      rw [hpv, List.flatMap_append, List.flatMap_cons, String.toList_append, String.toList_ofList]
      simp
  · rintro (rfl | ⟨t, ht⟩)
    · exact ⟨(a :: rest).map String.ofList, by simp, List.prefix_refl _, by
        rw [foldl_qualify_cons ha, ← hpv, String.ofList_toList]⟩
    · -- the parts of the package are those of `n`, then those after the dot
      have hdot : pv.toList = n.toList ++ '.' :: t := by
        rw [← ht, String.toList_append]
        simp
      obtain ⟨a', rest', hn⟩ := List.exists_cons_of_ne_nil (List.splitOn_ne_nil '.' n.toList)
      have hsplit' : a :: rest = a' :: (rest' ++ t.splitOn '.') := by
        rw [← hsplit, hdot, List.splitOn_append_cons_self, hn, List.cons_append]
      obtain ⟨rfl, rfl⟩ := List.cons.inj hsplit'
      refine ⟨(a :: rest').map String.ofList, by simp, (List.cons_prefix_cons.mpr ⟨rfl, List.prefix_append _ _⟩).map _, ?_⟩
      rw [foldl_qualify_cons ha, append_flatMap_eq_intercalate, ← hn, List.intercalate_splitOn, String.ofList_toList]

theorem SchemaFile.mem_decls {s : SchemaFile} {i : Nat} {d : SymbolDecl} (h : d ∈ s.decls i) :
    (∃ p, s.package = some p ∧ d ∈ packageDecls i p.name.span "" (packageParts p.name.value)) ∨
      d.file = i ∧ d.kind ≠ .package := by
  obtain ⟨hmsg, -, -, hext, -, -⟩ := @nonPackage_body i
  simp only [SchemaFile.decls, List.mem_append, List.mem_flatMap] at h
  rcases h with (((hp | ⟨m, -, hm⟩) | ⟨e, -, he⟩) | ⟨svc, -, hsvc⟩) | ⟨x, -, hx⟩
  · cases hpkg : s.package with
    | none => simp [hpkg] at hp
    | some p => exact Or.inl ⟨p, rfl, by simpa [hpkg] using hp⟩
  · exact Or.inr (hmsg _ m d hm)
  · exact Or.inr (Enum.nonPackage_decls _ e d he)
  · exact Or.inr (Service.nonPackage_decls _ svc d hsvc)
  · exact Or.inr (hext _ _ _ d hx)

theorem SchemaFile.decls_file {s : SchemaFile} {i : Nat} {d : SymbolDecl} (h : d ∈ s.decls i) :
    d.file = i ∧ (d.kind = .package → d.info = .package [i]) := by
  rcases SchemaFile.mem_decls h with ⟨p, -, hp⟩ | ⟨hfile, hk⟩
  · obtain ⟨hfile, -, hinfo⟩ := mem_packageDecls hp
    exact ⟨hfile, fun _ => hinfo⟩
  · exact ⟨hfile, fun h => absurd h hk⟩

/-- A parsed file declares package `n` exactly when its package is `n` or lies inside `n`. -/
theorem SchemaFile.declaresPackage_iff {s : SchemaFile} (hs : s.PackageNamed) (i : Nat) (n : String) :
    (∃ d ∈ s.decls i, d.fullName = n ∧ d.kind = .package) ↔
      ∃ p, s.package = some p ∧ WithinPackage p.name.value n := by
  constructor
  · rintro ⟨d, hd, hn, hk⟩
    rcases SchemaFile.mem_decls hd with ⟨p, hp, hdp⟩ | ⟨-, hk'⟩
    · exact ⟨p, hp, (exists_prefix_foldl_qualify (hs p hp)).mp
        ((exists_packageDecls_fullName "" _).mp ⟨d, hdp, hn⟩)⟩
    · exact absurd hk hk'
  · rintro ⟨p, hp, hw⟩
    obtain ⟨d, hdp, hn⟩ := (exists_packageDecls_fullName "" _).mpr ((exists_prefix_foldl_qualify (hs p hp)).mpr hw)
    refine ⟨d, ?_, hn, (mem_packageDecls hdp).2.1⟩
    simp only [SchemaFile.decls, hp, Option.map_some, Option.getD_some, List.append_assoc]
    exact List.mem_append_left _ hdp

/-! ### The declarations of a build -/

def buildDecls (files : Array ParsedFile) (order : List Nat) : List SymbolDecl :=
  order.flatMap fun i => ((files[i]?).map fun f => f.schema.decls i).getD []

variable {files : Array ParsedFile} {order : List Nat}

theorem mem_buildDecls {d : SymbolDecl} :
    d ∈ buildDecls files order ↔ ∃ i ∈ order, ∃ f, files[i]? = some f ∧ d ∈ f.schema.decls i := by
  simp only [buildDecls, List.mem_flatMap]
  constructor
  · rintro ⟨i, hi, hd⟩
    cases hf : files[i]? with
    | none => simp [hf] at hd
    | some f => exact ⟨i, hi, f, hf, by simpa [hf] using hd⟩
  · rintro ⟨i, hi, f, hf, hd⟩
    exact ⟨i, hi, by simpa [hf] using hd⟩

theorem buildDecls_packageInfo {d : SymbolDecl} (hd : d ∈ buildDecls files order) :
    d.kind = .package → d.info = .package [d.file] := by
  obtain ⟨i, -, f, -, hdi⟩ := mem_buildDecls.mp hd
  obtain ⟨rfl, hinfo⟩ := SchemaFile.decls_file hdi
  exact hinfo

theorem declaresPackage_buildDecls (hnamed : ∀ i ∈ order, ∀ f, files[i]? = some f → f.schema.PackageNamed)
    {n : String} {i : Nat} :
    SymbolDecl.DeclaresPackage (buildDecls files order) n i ↔
      i ∈ order ∧ ∃ f p, files[i]? = some f ∧ f.schema.package = some p ∧ WithinPackage p.name.value n := by
  constructor
  · rintro ⟨d, hd, hn, hk, rfl⟩
    obtain ⟨j, hj, f, hf, hdj⟩ := mem_buildDecls.mp hd
    obtain ⟨rfl, -⟩ := SchemaFile.decls_file hdj
    obtain ⟨p, hp, hw⟩ := (SchemaFile.declaresPackage_iff (hnamed _ hj f hf) _ n).mp ⟨d, hdj, hn, hk⟩
    exact ⟨hj, f, p, hf, hp, hw⟩
  · rintro ⟨hi, f, p, hf, hp, hw⟩
    obtain ⟨d, hd, hn, hk⟩ := (SchemaFile.declaresPackage_iff (hnamed i hi f hf) i n).mpr ⟨p, hp, hw⟩
    exact ⟨d, mem_buildDecls.mpr ⟨i, hi, f, hf, hd⟩, hn, hk, (SchemaFile.decls_file hd).1⟩

/-- Filling the table from parsed files is declaring their declarations in visiting order. -/
theorem SymbolTable.build_eq_foldl (hnamed : ∀ i ∈ order, ∀ f, files[i]? = some f → f.schema.PackageNamed) :
    SymbolTable.build files order =
      (((buildDecls files order).foldl (Collected.declare (files.map (·.name))) {}).table,
        ((buildDecls files order).foldl (Collected.declare (files.map (·.name))) {}).conflicts.toList) := by
  unfold SymbolTable.build
  dsimp only
  rw [buildDecls, List.foldl_flatMap, List.foldl_ext _
    (fun c i => (((files[i]?).map fun f => f.schema.decls i).getD []).foldl (Collected.declare (files.map (·.name))) c)
    _ ?step]
  case step =>
    intro c i hi
    cases hf : files[i]? with
    | none => rfl
    | some f => exact Collected.addFile_eq_foldl c (hnamed i hi f hf)

end ProtoSchema
