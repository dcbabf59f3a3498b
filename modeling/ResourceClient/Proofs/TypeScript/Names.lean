/-
Names in the generated TypeScript are identifiers: those made for endpoints, which stay clear of the names that
the generated files declare for themselves, and the methods of the verbs that the transport has. Sanitising is a
retraction onto the identifiers, since it keeps these and nothing else, and a name without an underscore is made from
nothing but itself.
-/
import ResourceClient.Endpoint.Basic
import ResourceClient.Proofs.Text.Case
import ResourceClient.Proofs.TypeScript.Parameters

namespace ResourceClient.TypeScript

/-! ## Endpoints -/

theorem append_underscore_not_mem {words : List String} (h : ∀ w ∈ words, w.toList.getLast? ≠ some '_') (s : String) :
    s ++ "_" ∉ words := by
  intro hs
  refine h _ hs ?_
  rw [String.toList_append, List.getLast?_append]
  rfl

/-- Avoiding words none of which ends with an underscore gives none of them. -/
theorem avoid_not_mem {words : List String} (h : ∀ w ∈ words, w.toList.getLast? ≠ some '_') (s : String) :
    avoid words s ∉ words := by
  unfold avoid
  split
  · exact append_underscore_not_mem h s
  · rename_i hs
    simpa using hs

theorem getLast?_reserved : ∀ w ∈ reserved, w.toList.getLast? ≠ some '_' := by
  decide +kernel

theorem getLast?_generated : ∀ w ∈ generated, w.toList.getLast? ≠ some '_' := by
  decide +kernel

theorem isIdentifier_iff {s : String} : isIdentifier s = true ↔ isShaped s.toList = true ∧ s ∉ reserved := by
  simp [isIdentifier]

theorem isIdentifier_sanitize (s : String) : isIdentifier (sanitize s) = true :=
  isIdentifier_iff.2 ⟨isShaped_sanitize s, avoid_not_mem getLast?_reserved _⟩

/-- The name of an endpoint is an identifier. -/
theorem isIdentifier_endpointName (path : String) : isIdentifier (endpointName path) = true := by
  unfold endpointName avoid
  split
  · refine isIdentifier_iff.2 ⟨?_, append_underscore_not_mem getLast?_reserved _⟩
    rw [String.toList_append]
    exact isShaped_append (isShaped_sanitize _) (by decide)
  · exact isIdentifier_sanitize _

/-- No endpoint has a name that the generated files declare for themselves. -/
theorem endpointName_not_mem_generated (path : String) : endpointName path ∉ generated :=
  avoid_not_mem getLast?_generated _

/-! ## Names that are kept -/

theorem avoid_of_not_mem {words : List String} {s : String} (h : s ∉ words) : avoid words s = s :=
  if_neg (by simpa using h)

theorem avoid_eq_of_not_mem {words : List String} {s : String} (h : '_' ∉ (avoid words s).toList) :
    avoid words s = s := by
  unfold avoid at h ⊢
  split
  · rename_i hs
    rw [if_pos hs, String.toList_append] at h
    exact absurd (List.mem_append_right _ List.mem_cons_self) h
  · rfl

/-- No character of a name is replaced. -/
theorem map_nameChar_eq_self {cs : List Char} (h : ∀ c ∈ cs, isNameChar c = true) :
    (cs.map fun c => if isNameChar c then c else '_') = cs := by
  have hkept : (cs.map fun c => if isNameChar c then c else '_') = cs.map id :=
    List.map_congr_left fun c hc => if_pos (h c hc)
  rw [hkept, List.map_id]

theorem shape_eq_of_not_mem {cs : List Char} (h : '_' ∉ shape cs) : shape cs = cs := by
  have hmap : shape cs = cs.map fun c => if isNameChar c then c else '_' := by
    unfold shape at h ⊢
    split at h
    · exact absurd List.mem_cons_self h
    · rename_i c more hc
      split at h
      · exact absurd List.mem_cons_self h
      · rename_i hd
        simp only [hc, if_neg hd]
  rw [hmap] at h ⊢
  refine map_nameChar_eq_self fun c hc => ?_
  by_contra hn
  exact h (List.mem_map.2 ⟨c, hc, if_neg hn⟩)

theorem sanitize_eq_of_not_mem {s : String} (h : '_' ∉ (sanitize s).toList) : sanitize s = s := by
  unfold sanitize at h ⊢
  have havoid := avoid_eq_of_not_mem h
  rw [havoid, String.toList_ofList] at h
  rw [havoid, shape_eq_of_not_mem h, String.ofList_toList]

theorem isDigit_of_isNameStart {c : Char} (h : isNameStart c = true) : c.isDigit = false := by
  rw [Bool.eq_false_iff]
  intro hd
  rw [Text.isDigit_iff] at hd
  have hclass : (((c.isUpper || c.isLower) || c == '_') || c == '$') = true := h
  simp only [Bool.or_eq_true, beq_iff_eq, Text.isUpper_iff, Text.isLower_iff] at hclass
  rcases hclass with ((h | h) | rfl) | rfl
  · omega
  · omega
  · exact absurd hd (by decide)
  · exact absurd hd (by decide)

theorem shape_eq_self {cs : List Char} (h : isShaped cs = true) : shape cs = cs := by
  have hall := all_of_isShaped h
  cases cs with
  | nil => cases h
  | cons c cs =>
    rw [isShaped, Bool.and_eq_true] at h
    unfold shape
    rw [map_nameChar_eq_self (List.all_eq_true.1 hall)]
    exact if_neg (by rw [isDigit_of_isNameStart h.1]; exact Bool.false_ne_true)

/-- An identifier is kept. -/
theorem sanitize_of_isIdentifier {s : String} (h : isIdentifier s = true) : sanitize s = s := by
  obtain ⟨hs, hr⟩ := isIdentifier_iff.1 h
  rw [sanitize, shape_eq_self hs, String.ofList_toList, avoid_of_not_mem hr]

/-- Nothing but an identifier is kept. -/
theorem sanitize_eq_self_iff {s : String} : sanitize s = s ↔ isIdentifier s = true := by
  constructor
  · intro h
    rw [← h]
    exact isIdentifier_sanitize s
  · exact sanitize_of_isIdentifier

/-- A file stem that is an identifier of its own names the endpoint. -/
theorem endpointName_of_stem? {path stem : String} (hstem : Path.stem? path = some stem)
    (hname : isIdentifier stem = true) (hfree : stem ∉ generated) : endpointName path = stem := by
  rw [endpointName, hstem, Option.getD_some, sanitize_of_isIdentifier hname, avoid_of_not_mem hfree]

/-- A name without an underscore is made for a path only when it is the stem of the file itself. -/
theorem endpointName_eq_iff {path name : String} (hname : isIdentifier name = true) (hfree : name ∉ generated)
    (hplain : '_' ∉ name.toList) : endpointName path = name ↔ Path.stem? path = some name := by
  constructor
  · intro h
    have hmade : '_' ∉ (endpointName path).toList := by rwa [h]
    have havoid : endpointName path = sanitize ((Path.stem? path).getD "") := avoid_eq_of_not_mem hmade
    rw [havoid] at h hmade
    rw [sanitize_eq_of_not_mem hmade] at h
    cases hstem : Path.stem? path with
    | none =>
      rw [hstem] at h
      rw [← h] at hname
      cases hname
    | some stem =>
      rw [hstem] at h
      rw [← h, Option.getD_some]
  · intro h
    exact endpointName_of_stem? h hname hfree

/-- Sanitising is a retraction onto the identifiers: what it makes is one, and it keeps a text exactly when that is one
already. The name made for the file at a path is an identifier and none of the names that the generated files declare,
and it is the stem of the file exactly when the stem is such a name. -/
theorem sanitize_retracts (s path : String) :
    isIdentifier (sanitize s) = true ∧ (sanitize s = s ↔ isIdentifier s = true) ∧
      sanitize (sanitize s) = sanitize s ∧
      isIdentifier (endpointName path) = true ∧ endpointName path ∉ generated ∧
      (Path.stem? path = some (endpointName path) ↔
        ∃ stem, Path.stem? path = some stem ∧ isIdentifier stem = true ∧ stem ∉ generated) := by
  have hsane := isIdentifier_sanitize s
  have hname := isIdentifier_endpointName path
  have hfree := endpointName_not_mem_generated path
  refine ⟨hsane, sanitize_eq_self_iff, sanitize_of_isIdentifier hsane, hname, hfree, ?_⟩
  constructor
  · intro hstem
    exact ⟨_, hstem, hname, hfree⟩
  · rintro ⟨stem, hstem, hkept, hown⟩
    rw [endpointName_of_stem? hstem hkept hown, hstem]

example : ["ticket-comments.cfc", "2fa.cfc", "delete.cfc", "transport.cfc"].map endpointName =
    ["ticket_comments", "_2fa", "delete_", "transport_"] := by
  decide

/-! ## Methods -/

theorem fold_name (v : Verb) : Text.fold v.name = v.name := by
  cases v <;> rfl

theorem verb?_eq (o : Operation) : o.verb? = Verb.all.find? fun v => v.name == Text.fold o.verb := by
  have hsame : (fun v : Verb => Text.sameFolded v.name o.verb) = fun v => v.name == Text.fold o.verb := by
    funext v
    rw [Text.sameFolded, fold_name]
  unfold Operation.verb? Verb.ofName
  rw [hsame]
  cases Verb.all.find? fun v => v.name == Text.fold o.verb <;> rfl

/-- The verb of an operation is written in any letter case. -/
theorem verb?_eq_some {o : Operation} {v : Verb} : o.verb? = some v ↔ Text.fold o.verb = v.name := by
  rw [verb?_eq]
  constructor
  · intro h
    have hname := List.find?_some h
    exact (beq_iff_eq.1 hname).symm
  · intro h
    rw [h]
    cases v <;> rfl

/-- The verb of an operation has the method of that verb. -/
theorem methodName_of_verb? {o : Operation} {v : Verb} (h : o.verb? = some v) : o.methodName = v.proxyMethod := by
  have hfold : Text.fold o.verb = v.name := verb?_eq_some.1 h
  have hlower : Text.lower o.verb = v.name := by
    rw [Text.lower_eq_fold, hfold]
    rw [hfold]
    cases v <;> rfl
  rw [Operation.methodName, methodName, hlower]
  cases v <;> rfl

end ResourceClient.TypeScript
