import ProtoSchema.Proofs.Build.Walk

/-!
Broken files after one pass. `propagate` visits the files of the order once and breaks a
file not broken yet when one of its imports points at a broken file. One pass reaches the
fixpoint: afterwards a file of the order that imports a broken file is broken itself. The
order is not topological when imports form a cycle, but the walk that made it broke the
file of every import pointing forward in it (`order_spec`), and a broken file waits for
nothing.

`Closed g done` is that law over the files of `done`. Visiting the next file extends it to
that file (`Closed.step`): the visit changes the mark of the visited file only, so each file
visited before has its last mark already, and a file visited before that imports the new one
imports forward, so it is broken. The pass over the whole order then keeps it
(`Closed.foldl`).

Main statement: `ImportGraph.propagate_closed`.
-/

namespace ProtoSchema

namespace ImportGraph

def Closed (g : ImportGraph) (done : List Nat) : Prop :=
  ∀ i ∈ done, ∀ j ∈ g.targets i, j ∈ done → g.isBroken j = true → g.isBroken i = true

def ForwardBroken (g : ImportGraph) (order : List Nat) : Prop :=
  ∀ v ∈ order, ∀ t ∈ g.targets v, g.isBroken v = true ∨ Before order t v

theorem Extends.targets {g g' : ImportGraph} (h : Extends g g') : g'.targets = g.targets := by
  funext v
  simp only [ImportGraph.targets, h.deps]

theorem ForwardBroken.mono {g g' : ImportGraph} {order : List Nat} (h : ForwardBroken g order)
    (hg : Extends g g') : ForwardBroken g' order := by
  intro v hv t ht
  rcases h v hv t (hg.targets ▸ ht) with hb | hb
  · exact .inl (hg.mono v hb)
  · exact .inr hb

theorem ForwardBroken.before_next {g : ImportGraph} {done rest : List Nat} {i : Nat}
    (h : ForwardBroken g (done ++ i :: rest)) (hnd : (done ++ i :: rest).Nodup) :
    ∀ v ∈ done, i ∈ g.targets v → g.isBroken v = true := by
  intro v hv hi
  have hnew : i ∉ done := fun hid => (List.nodup_append.mp hnd).2.2 i hid i List.mem_cons_self rfl
  rcases h v (List.mem_append_left _ hv) i hi with hb | hbefore
  · exact hb
  · -- `i` would stand before `v`, hence inside `done`
    obtain ⟨d₁, d₂, rfl⟩ := List.append_of_mem hv
    have hsplit : d₁ ++ v :: d₂ ++ i :: rest = d₁ ++ v :: (d₂ ++ i :: rest) := by simp
    rw [hsplit] at hbefore hnd
    exact absurd (List.mem_append_left _ (hbefore.mem_prefix hnd)) hnew

theorem propagateStep_spec {files : Array ParsedFile} {g : ImportGraph} (hs : Shaped files g)
    (hb : g.broken.size = files.size) {i : Nat} (hi : i < files.size) :
    let g' := propagateStep files g i
    Extends g g' ∧ (∀ j, j ≠ i → g'.isBroken j = g.isBroken j) ∧
      (g'.isBroken i = false → ∀ t ∈ g.targets i, g.isBroken t = false) := by
  obtain ⟨file, hf⟩ : ∃ file, files[i]? = some file := ⟨files[i], by simp [hi]⟩
  unfold propagateStep
  split
  · rename_i hbroken
    exact ⟨Extends.refl g, fun _ _ => rfl, fun h => absurd hbroken (by simp [h])⟩
  · obtain ⟨hloc, hdeps, hret, hiff⟩ := markBrokenImports_spec hs hf (hb ▸ hi)
    exact ⟨Extends.of_local hloc hdeps, hloc.frame, fun h => (hiff.mp (hret.trans h)).2⟩

/-- Visiting `i` extends the law to `i`, when every file of `done` that imports `i` is broken. -/
theorem Closed.step {files : Array ParsedFile} {g : ImportGraph} (hs : Shaped files g)
    (hb : g.broken.size = files.size) {done : List Nat} {i : Nat} (hi : i < files.size)
    (hc : Closed g done) (hnew : i ∉ done) (hback : ∀ v ∈ done, i ∈ g.targets v → g.isBroken v = true) :
    Closed (propagateStep files g i) (done ++ [i]) := by
  obtain ⟨hext, hframe, hsettled⟩ := propagateStep_spec hs hb hi
  intro v hv j hj hjdone hbj
  rw [hext.targets] at hj
  rcases List.mem_append.mp hv with hvd | hvi
  · have hne : v ≠ i := fun h => hnew (h ▸ hvd)
    rw [hframe v hne]
    by_cases hji : j = i
    · subst hji
      exact hback v hvd hj
    · have hjd : j ∈ done := by simpa [hji] using hjdone
      exact hc v hvd j hj hjd (by rwa [hframe j hji] at hbj)
  · obtain rfl := List.mem_singleton.mp hvi
    by_contra hnb
    have hfree := hsettled (by simpa using hnb)
    by_cases hji : j = v
    · subst hji
      exact hnb hbj
    · rw [hframe j hji, hfree j hj] at hbj
      cases hbj

/-- The pass over the rest of the order keeps the law, which then covers the whole order. -/
theorem Closed.foldl {files : Array ParsedFile} (order : List Nat) (hnd : order.Nodup)
    (hlt : ∀ v ∈ order, v < files.size) (rest : List Nat) :
    ∀ (done : List Nat) (g : ImportGraph), done ++ rest = order → Shaped files g →
      g.broken.size = files.size → ForwardBroken g order → Closed g done →
      Closed (rest.foldl (propagateStep files) g) order := by
  induction rest with
  | nil =>
    intro done g horder _ _ _ hc
    simpa [← horder] using hc
  | cons i rest ih =>
    intro done g horder hs hb hfwd hc
    subst horder
    have hi : i < files.size := hlt i (by simp)
    obtain ⟨hext, -, -⟩ := propagateStep_spec hs hb hi
    have hnew : i ∉ done := fun hid => (List.nodup_append.mp hnd).2.2 i hid i List.mem_cons_self rfl
    have hstep := Closed.step hs hb hi hc hnew (hfwd.before_next hnd)
    exact ih (done ++ [i]) _ (by simp) (hext.shaped hs) (hext.size.trans hb) (hfwd.mono hext) hstep

/-- One pass after the walk reaches the fixpoint: every file of the order that imports a
broken file is broken, cycles or not. -/
theorem propagate_closed {files : Array ParsedFile} {g : ImportGraph} (hs : Shaped files g)
    (hb : g.broken.size = files.size) (roots : List Nat) :
    let r := g.order files roots
    let g' := propagate files r.1 r.2
    ∀ i ∈ r.1, ∀ j ∈ g'.targets i, g'.isBroken j = true → g'.isBroken i = true := by
  intro r g' i hi j hj hbj
  obtain ⟨hnd, hlt, hext, -, hord⟩ := order_spec hs hb roots
  have hclosed : Closed g' r.1 :=
    Closed.foldl r.1 hnd hlt r.1 [] r.2 rfl (hext.shaped hs) (hext.size.trans hb) hord
      (by simp [Closed])
  have hpass := propagate_extends files r.1 r.2
  rcases hord i hi j (by rwa [hpass.targets] at hj) with hbi | ⟨l₁, l₂, he, hj₁⟩
  · exact hpass.mono i hbi
  · exact hclosed i hi j hj (by rw [he]; exact List.mem_append_left _ hj₁) hbj

def cycleSample : Array ParsedFile :=
  #[{ name := "a.proto", path := "a.proto",
      schema := { (default : SchemaFile) with imports := [{ (default : Import) with path := ⟨"b.proto", {}⟩ }] } },
    { name := "b.proto", path := "b.proto",
      schema := { (default : SchemaFile) with imports := [{ (default : Import) with path := ⟨"a.proto", {}⟩ }] } },
    { name := "c.proto", path := "c.proto",
      schema := { (default : SchemaFile) with imports := [{ (default : Import) with path := ⟨"a.proto", {}⟩ }] } }]

theorem propagate_closed_cycleSample :
    Shaped cycleSample (ofFiles cycleSample []) ∧ (ofFiles cycleSample []).broken.size = cycleSample.size ∧
      let r := (ofFiles cycleSample []).order cycleSample [2]
      let g' := propagate cycleSample r.1 r.2
      ∀ i ∈ r.1, ∀ j ∈ g'.targets i, g'.isBroken j = true → g'.isBroken i = true :=
  ⟨deps_ofFiles cycleSample [], size_broken_ofFiles cycleSample [],
    propagate_closed (deps_ofFiles cycleSample []) (size_broken_ofFiles cycleSample []) [2]⟩

end ImportGraph

end ProtoSchema
