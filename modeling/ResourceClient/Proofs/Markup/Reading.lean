/-
Reading a text in parts. A part that is read as some events, whatever follows it, adds these events to those
of the rest; the size of the whole text only places faults.
-/
import ResourceClient.Markup.Event

namespace ResourceClient.Markup

/-! ## One step -/

section

variable {size : Nat} {cs rest : List Char}

theorem readEvents_of_finished (hs : step cs = .finished) : readEvents size cs = ([], none) := by
  rw [readEvents]
  split
  · rfl
  all_goals
    rename_i h
    rw [hs] at h
    cases h

theorem readEvents_nil (size : Nat) : readEvents size [] = ([], none) :=
  readEvents_of_finished rfl

theorem readEvents_of_fault {fault : ReadFault} (hs : step cs = .fault fault rest) :
    readEvents size cs = ([], some (.read (size - byteSize rest) fault)) := by
  rw [readEvents]
  split <;> rename_i h <;> rw [hs] at h <;> cases h
  rfl

theorem readEvents_of_skip (hs : step cs = .skip rest) : readEvents size cs = readEvents size rest := by
  rw [readEvents]
  split <;> rename_i h <;> rw [hs] at h <;> cases h
  rfl

theorem readEvents_of_tag {tag : Tag} {e : Event} (hs : step cs = .tag tag rest) (he : Event.ofTag tag = .ok e) :
    readEvents size cs = (e :: (readEvents size rest).1, (readEvents size rest).2) := by
  rw [readEvents]
  split <;> rename_i h <;> rw [hs] at h <;> cases h
  split <;> rename_i h <;> rw [he] at h <;> cases h
  rfl

theorem readEvents_of_faulty_tag {tag : Tag} {fault : AttributeFault} (hs : step cs = .tag tag rest)
    (he : Event.ofTag tag = .error fault) :
    readEvents size cs = ([], some (.attribute (size - byteSize rest) fault)) := by
  rw [readEvents]
  split <;> rename_i h <;> rw [hs] at h <;> cases h
  split <;> rename_i h <;> rw [he] at h <;> cases h
  rfl

end

/-- Where no fault is placed, the size of the whole text does not matter. -/
theorem readEvents_size {size : Nat} {cs : List Char} (h : (readEvents size cs).2 = none) (other : Nat) :
    readEvents other cs = readEvents size cs := by
  fun_induction readEvents size cs with
  | case1 cs hs => rw [readEvents_of_finished hs]
  | case2 => cases h
  | case3 cs rest hs _ ih => rw [readEvents_of_skip hs, ih h]
  | case4 => cases h
  | case5 cs tag rest hs _ e he more ih => rw [readEvents_of_tag hs he, ih h]

/-- A byte order mark is passed over wherever it stands, so that it need not be dropped. -/
theorem readEvents_dropMark (size : Nat) (cs : List Char) : readEvents size (dropMark cs) = readEvents size cs := by
  unfold dropMark
  split
  · rename_i cs
    exact (readEvents_of_skip rfl).symm
  · rfl

theorem events_eq (markup : String) :
    events markup = readEvents (byteSize (dropMark markup.toList)) markup.toList := by
  rw [events, readEvents_dropMark]

/-! ## Parts -/

/-- Whether a text is read as some events, whatever follows it. -/
def ReadsAs (text : List Char) (es : List Event) : Prop :=
  ∀ size rest, readEvents size (text ++ rest) = (es ++ (readEvents size rest).1, (readEvents size rest).2)

namespace ReadsAs

variable {a b : List Char} {es fs : List Event}

theorem nil : ReadsAs [] [] :=
  fun _ _ => rfl

theorem append (ha : ReadsAs a es) (hb : ReadsAs b fs) : ReadsAs (a ++ b) (es ++ fs) := by
  intro size rest
  rw [List.append_assoc, ha, hb, List.append_assoc]

theorem of_skip (h : ∀ rest, step (a ++ rest) = .skip rest) : ReadsAs a [] :=
  fun _ rest => readEvents_of_skip (h rest)

theorem of_tag {tag : Tag} {e : Event} (h : ∀ rest, step (a ++ rest) = .tag tag rest)
    (he : Event.ofTag tag = .ok e) : ReadsAs a [e] :=
  fun _ rest => readEvents_of_tag (h rest) he

/-- A character that begins no markup and no reference is passed over. -/
theorem plain {c : Char} (h1 : c ≠ '<') (h2 : c ≠ '&') : ReadsAs [c] [] := by
  refine .of_skip fun rest => ?_
  rw [List.singleton_append, step]
  · exact fun h => h1 h
  · exact fun h => h2 h

/-- A text that is read as a whole has its events and no fault. -/
theorem readEvents (h : ReadsAs a es) (size : Nat) : Markup.readEvents size a = (es, none) := by
  have hall := h size []
  rwa [readEvents_nil, List.append_nil, List.append_nil] at hall

theorem events (h : ReadsAs a es) : Markup.events (String.ofList a) = (es, none) := by
  rw [events_eq, String.toList_ofList, h.readEvents]

end ReadsAs

end ResourceClient.Markup
