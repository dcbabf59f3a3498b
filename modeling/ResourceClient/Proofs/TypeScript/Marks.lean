/-
What the choice about patches changes in an interface: on the line of the patch method, the marks of optional
fields, and nothing else.
-/
import ResourceClient.Proofs.TypeScript.Lines
import ResourceClient.Proofs.TypeScript.Methods

namespace ResourceClient.TypeScript

/-! ## Lines that differ in marks -/

/-- A field, and whether it has the mark of optional fields. -/
def fieldText (key type : String) (optional : Bool) : String :=
  key ++ (if optional then "?" else "") ++ ": " ++ type

/-- The line of the patch method with some fields. -/
def patchLine (fields : List String) : String :=
  "        doPatch: (data?: " ++ (if fields.isEmpty then "\x7b\x7d" else "\x7b " ++ "; ".intercalate fields ++ " \x7d") ++
    ", options?: any) => TResult;"

/-- Whether two fields have the same key and type. -/
def SameField (field field' : String) : Prop :=
  ∃ key type optional optional', field = fieldText key type optional ∧ field' = fieldText key type optional'

/-- Whether two lines are the same, or lines of a patch method with the same fields but for their marks. -/
def SameLine (line line' : String) : Prop :=
  line = line' ∨ ∃ fields fields', List.Forall₂ SameField fields fields' ∧ line = patchLine fields ∧
    line' = patchLine fields'

/-- Two texts line by line the same, but for the marks of fields on lines of patch methods. -/
def DifferInMarks (text text' : String) : Prop :=
  ∃ ls ls', List.Forall₂ SameLine ls ls' ∧ text = unlines ls ∧ text' = unlines ls'

theorem DifferInMarks.refl (ls : List String) : DifferInMarks (unlines ls) (unlines ls) :=
  ⟨ls, ls, List.forall₂_same.2 fun _ _ => .inl rfl, rfl, rfl⟩

theorem DifferInMarks.append {s s' t t' : String} (h : DifferInMarks s s') (ht : DifferInMarks t t') :
    DifferInMarks (s ++ t) (s' ++ t') := by
  obtain ⟨ls, ls', hls, rfl, rfl⟩ := h
  obtain ⟨ms, ms', hms, rfl, rfl⟩ := ht
  exact ⟨ls ++ ms, ls' ++ ms', List.rel_append hls hms, (unlines_append ..).symm, (unlines_append ..).symm⟩

theorem DifferInMarks.join {α : Type} {f g : α → String} {as : List α} (h : ∀ a ∈ as, DifferInMarks (f a) (g a)) :
    DifferInMarks (String.join (as.map f)) (String.join (as.map g)) := by
  induction as with
  | nil => exact .refl []
  | cons a as ih =>
    rw [List.map_cons, List.map_cons, String.join_cons, String.join_cons]
    exact (h a List.mem_cons_self).append (ih fun b hb => h b (List.mem_cons_of_mem _ hb))

/-! ## The lines of an interface -/

/-- The line of a method. -/
def Method.line (m : Method) : String :=
  "        " ++ m.name ++ ": (data?: " ++ m.dataType ++ ", options?: any) => TResult;"

/-- The lines of an interface. -/
def Declaration.lines (d : Declaration) : List String :=
  ["export interface " ++ d.name ++ "<TResult> \x7b",
    "    (" ++ ", ".intercalate (d.parameters.map (· ++ ": string | number")) ++ "): \x7b"] ++
    d.methods.map Method.line ++ ["        url: string;", "    \x7d;", "\x7d"]

theorem render_eq_line (m : Method) : m.render = m.line ++ "\n" := by
  unfold Method.render Method.line
  simp only [String.append_assoc]
  rfl

theorem render_eq_unlines (d : Declaration) : d.render = unlines d.lines := by
  have hmethods : String.join (d.methods.map Method.render) = unlines (d.methods.map Method.line) := by
    rw [unlines, List.map_map]
    exact congrArg _ (List.map_congr_left fun m _ => render_eq_line m)
  have hopen : "<TResult> \x7b\n" = "<TResult> \x7b" ++ "\n" := by decide
  have hcall : "): \x7b\n" = "): \x7b" ++ "\n" := by decide
  have hend : unlines ["        url: string;", "    \x7d;", "\x7d"] =
      "        url: string;\n" ++ ("    \x7d;\n" ++ "\x7d\n") := by decide
  unfold Declaration.render Declaration.lines
  rw [unlines_append, unlines_append, ← hmethods, hend, hopen, hcall]
  simp [unlines, String.append_assoc, -String.reduceAppend]

/-! ## Methods -/

/-- Whether two methods are the same, or patch methods with the same fields but for their marks. -/
def SameMethod (m m' : Method) : Prop :=
  m = m' ∨ (m.name = "doPatch" ∧ m'.name = "doPatch" ∧
    List.Forall₂ (fun f f' : Field => f.name = f'.name ∧ f.type = f'.type) m.fields m'.fields)

theorem SameMethod.name {m m' : Method} (h : SameMethod m m') : m.name = m'.name := by
  rcases h with rfl | ⟨hm, hm', -⟩
  · rfl
  · rw [hm, hm']

theorem SameMethod.line {m m' : Method} (h : SameMethod m m') : SameLine m.line m'.line := by
  have hpatch : ∀ k : Method, k.name = "doPatch" → k.line = patchLine (k.fields.map Field.render) := by
    intro k hk
    unfold Method.line patchLine Method.dataType
    rw [hk, List.isEmpty_map]
    rfl
  rcases h with rfl | ⟨hm, hm', hf⟩
  · exact .inl rfl
  · refine .inr ⟨m.fields.map Field.render, m'.fields.map Field.render, ?_, hpatch m hm, hpatch m' hm'⟩
    rw [List.forall₂_map_left_iff, List.forall₂_map_right_iff]
    refine hf.imp fun f f' hff => ⟨propertyName f.name, f.type, f.optional, f'.optional, rfl, ?_⟩
    rw [hff.1, hff.2]
    rfl

end ResourceClient.TypeScript
