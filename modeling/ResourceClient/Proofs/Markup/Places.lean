/-
The places of a text at which letter case is free: as a tag is delimited, the names of elements and attributes, and
the values that are compared without regard to case. Each character of the text has its place, free or not.
-/
import ResourceClient.Proofs.Markup.FreeValues
import ResourceClient.Proofs.Markup.Pieces
import ResourceClient.Proofs.Text.LetterCase

namespace ResourceClient.Markup

open Text

/-! ## Places -/

/-- The places of a text that are all free, or all not. -/
def marks (free : Bool) (cs : List Char) : List Bool :=
  List.replicate cs.length free

/-- Whether the value of an attribute is free. One with an ampersand is not, since it may be a reference. -/
def RawAttribute.isFree (element : String) (a : RawAttribute) : Bool :=
  isFreeKey element (String.ofList (foldChars a.key)) && !a.value.contains '&'

/-- What is read of a text of which `rest` is left. -/
def consumed (cs rest : List Char) : List Char :=
  cs.take (cs.length - rest.length)

/-- The places in the part of a tag after its name. Keys are free, and a value with its quotes is free or not. -/
def attributePlaces (element : String) (size : Nat) (cs : List Char) : List Bool :=
  match h : cs.dropWhile isMarkupBlank with
  | [] => marks false cs
  | c :: more =>
    marks false (cs.takeWhile isMarkupBlank) ++ (marks true (c :: more.takeWhile isKeyChar) ++
      match h1 : readAttribute size c more with
      | .error _ => marks false (more.dropWhile isKeyChar)
      | .ok (a, rest) =>
        have := Nat.lt_of_le_of_lt (readAttribute_length h1) (length_of_dropWhile h)
        marks (a.isFree element) (consumed (more.dropWhile isKeyChar) rest) ++ attributePlaces element size rest)
termination_by cs.length

/-- The places in a tag that has a name and attributes. -/
def contentPlaces (content : List Char) : List Bool :=
  marks true (content.takeWhile fun c => !isMarkupBlank c) ++
    attributePlaces (tagName content) (byteSize content) (content.dropWhile fun c => !isMarkupBlank c)

/-- The places between the brackets of a tag. -/
def Tag.places : Tag → List Bool
  | .opening content => contentPlaces content
  | .empty content => contentPlaces content ++ [false]
  | .closing content => false :: marks true content

/-- The places of a text. Nothing is free outside tags. -/
def places (cs : List Char) : List Bool :=
  match h : step cs with
  | .finished => marks false cs
  | .fault _ _ => marks false cs
  | .skip rest =>
    have : rest.length < cs.length := step_length (by rw [h]; rfl)
    marks false (consumed cs rest) ++ places rest
  | .tag tag rest =>
    have : rest.length < cs.length := step_length (by rw [h]; rfl)
    false :: (tag.places ++ false :: places rest)
termination_by cs.length

/-- What a text has at the places that are not free. -/
def fixedChars (free : List Bool) (cs : List Char) : List (Option Char) :=
  List.zipWith (fun free c => if free then none else some c) free cs

@[simp] theorem length_marks (free : Bool) (cs : List Char) : (marks free cs).length = cs.length :=
  List.length_replicate

theorem consumed_append (piece rest : List Char) : consumed (piece ++ rest) rest = piece := by
  simp [consumed]

/-! ## Attributes -/

theorem suffix_of_dropWhile {p : Char → Bool} {c : Char} {cs more : List Char} (h : cs.dropWhile p = c :: more) :
    more <:+ cs :=
  (List.suffix_cons c more).trans (h ▸ List.dropWhile_suffix p)

theorem readValue_suffix {size : Nat} {cs value rest : List Char} (h : readValue size cs = .ok (value, rest)) :
    rest <:+ cs := by
  unfold readValue at h
  split at h
  · cases h
  · rename_i c more hdrop
    have hmore := suffix_of_dropWhile hdrop
    split at h
    · split at h
      · cases h
      · rename_i d rest' hquote
        cases h
        exact (suffix_of_dropWhile hquote).trans hmore
    · cases h
      exact (List.dropWhile_suffix _).trans hmore

/-- An attribute is its key, which is cut off by itself, and what is read behind the key. -/
theorem readAttribute_suffix {size : Nat} {c : Char} {cs rest : List Char} {a : RawAttribute}
    (h : readAttribute size c cs = .ok (a, rest)) : rest <:+ cs.dropWhile isKeyChar := by
  unfold readAttribute at h
  split at h
  · rename_i more hequals
    rcases hv : readValue size more with f | ⟨value, rest'⟩ <;> rw [hv] at h <;> cases h
    exact (readValue_suffix hv).trans (suffix_of_dropWhile hequals)
  · cases h
    exact List.dropWhile_suffix _

section

variable {element : String} {size : Nat} {c : Char} {cs more piece rest : List Char} {a : RawAttribute}

theorem readAttributes_of_nil (h : cs.dropWhile isMarkupBlank = []) : readAttributes size cs = .ok [] := by
  rw [readAttributes]
  split
  · rfl
  · rename_i h'
    rw [h] at h'
    cases h'

theorem readAttributes_of_error {fault : AttributeFault} (h : cs.dropWhile isMarkupBlank = c :: more)
    (hr : readAttribute size c more = .error fault) : readAttributes size cs = .error fault := by
  rw [readAttributes]
  split
  · rename_i h'
    rw [h] at h'
    cases h'
  · rename_i h'
    rw [h] at h'
    cases h'
    split <;> rename_i hr' <;> rw [hr] at hr' <;> cases hr'
    rfl

theorem readAttributes_of_ok (h : cs.dropWhile isMarkupBlank = c :: more)
    (hr : readAttribute size c more = .ok (a, rest)) :
    readAttributes size cs = (readAttributes size rest).map (a :: ·) := by
  rw [readAttributes]
  split
  · rename_i h'
    rw [h] at h'
    cases h'
  · rename_i h'
    rw [h] at h'
    cases h'
    split <;> rename_i hr' <;> rw [hr] at hr' <;> cases hr'
    rfl

theorem attributePlaces_of_nil (h : cs.dropWhile isMarkupBlank = []) :
    attributePlaces element size cs = marks false cs := by
  rw [attributePlaces]
  split
  · rfl
  · rename_i h'
    rw [h] at h'
    cases h'

theorem attributePlaces_of_error {fault : AttributeFault} (h : cs.dropWhile isMarkupBlank = c :: more)
    (hr : readAttribute size c more = .error fault) :
    attributePlaces element size cs = marks false (cs.takeWhile isMarkupBlank) ++
      (marks true (c :: more.takeWhile isKeyChar) ++ marks false (more.dropWhile isKeyChar)) := by
  rw [attributePlaces]
  split
  · rename_i h'
    rw [h] at h'
    cases h'
  · rename_i h'
    rw [h] at h'
    cases h'
    split <;> rename_i hr' <;> rw [hr] at hr'
    cases hr'

theorem attributePlaces_of_ok (h : cs.dropWhile isMarkupBlank = c :: more)
    (hr : readAttribute size c more = .ok (a, rest)) (hp : more.dropWhile isKeyChar = piece ++ rest) :
    attributePlaces element size cs = marks false (cs.takeWhile isMarkupBlank) ++
      (marks true (c :: more.takeWhile isKeyChar) ++
        (marks (a.isFree element) piece ++ attributePlaces element size rest)) := by
  rw [attributePlaces]
  split
  · rename_i h'
    rw [h] at h'
    cases h'
  · rename_i h'
    rw [h] at h'
    cases h'
    split <;> rename_i hr' <;> rw [hr] at hr' <;> cases hr'
    rw [hp, consumed_append]

end

theorem length_attributePlaces (element : String) (size : Nat) (cs : List Char) :
    (attributePlaces element size cs).length = cs.length := by
  have hblank := congrArg List.length (List.takeWhile_append_dropWhile (p := isMarkupBlank) (l := cs))
  cases hd : cs.dropWhile isMarkupBlank with
  | nil => rw [attributePlaces_of_nil hd, length_marks]
  | cons c more =>
    have hkey := congrArg List.length (List.takeWhile_append_dropWhile (p := isKeyChar) (l := more))
    rw [hd, List.length_append, List.length_cons] at hblank
    rw [List.length_append] at hkey
    cases hr : readAttribute size c more with
    | error fault =>
      rw [attributePlaces_of_error hd hr]
      simp only [List.length_append, length_marks, List.length_cons]
      omega
    | ok found =>
      obtain ⟨a, rest⟩ := found
      obtain ⟨piece, hp⟩ := readAttribute_suffix hr
      have : rest.length < cs.length := Nat.lt_of_le_of_lt (readAttribute_length hr) (length_of_dropWhile hd)
      have hback := congrArg List.length hp
      rw [List.length_append] at hback
      rw [attributePlaces_of_ok hd hr hp.symm]
      simp only [List.length_append, length_marks, List.length_cons, length_attributePlaces element size rest]
      omega
termination_by cs.length

/-! ## Tags -/

theorem length_contentPlaces (content : List Char) : (contentPlaces content).length = content.length := by
  have hname := congrArg List.length
    (List.takeWhile_append_dropWhile (p := fun c => !isMarkupBlank c) (l := content))
  rw [List.length_append] at hname
  rw [contentPlaces, List.length_append, length_marks, length_attributePlaces, hname]

/-- What stands between the brackets of a tag. -/
def Tag.chars : Tag → List Char
  | .opening content => content
  | .empty content => content ++ ['/']
  | .closing content => '/' :: content

theorem Tag.chars_ofContent (content : List Char) : (Tag.ofContent content).chars = content := by
  unfold Tag.ofContent
  split
  · rfl
  · split
    · rename_i hlast
      obtain ⟨front, rfl⟩ := List.getLast?_eq_some_iff.1 hlast
      rw [List.dropLast_concat]
      rfl
    · rfl

theorem Tag.length_places (tag : Tag) : tag.places.length = tag.chars.length := by
  cases tag with
  | opening content => exact length_contentPlaces content
  | empty content =>
    rw [Tag.places, Tag.chars, List.length_append, List.length_append, length_contentPlaces]
    rfl
  | closing content => rw [Tag.places, Tag.chars, List.length_cons, List.length_cons, length_marks]

/-! ## Texts -/

section

variable {cs piece rest : List Char}

theorem places_of_rest? (hs : (step cs).rest? = none) : places cs = marks false cs := by
  rw [places]
  split
  · rfl
  · rfl
  all_goals
    rename_i h
    rw [h] at hs
    cases hs

theorem places_of_skip (hs : step (piece ++ rest) = .skip rest) :
    places (piece ++ rest) = marks false piece ++ places rest := by
  rw [places]
  split <;> rename_i h <;> rw [hs] at h <;> cases h
  rw [consumed_append]

theorem places_of_tag {tag : Tag} (hs : step cs = .tag tag rest) :
    places cs = false :: (tag.places ++ false :: places rest) := by
  rw [places]
  split <;> rename_i h <;> rw [hs] at h <;> cases h
  rfl

/-- A tag stands between its brackets. -/
theorem eq_of_step_tag {tag : Tag} (hs : step cs = .tag tag rest) : cs = '<' :: (tag.chars ++ '>' :: rest) := by
  obtain ⟨c, more, content, rfl, -, hcut, rfl⟩ := exists_of_step_tag hs
  rw [(cutTag_eq hcut).1, Tag.chars_ofContent]

/-- Each character has its place. -/
theorem length_places (cs : List Char) : (places cs).length = cs.length := by
  cases hs : step cs with
  | finished => rw [places_of_rest? (by rw [hs]; rfl), length_marks]
  | fault fault rest => rw [places_of_rest? (by rw [hs]; rfl), length_marks]
  | skip rest =>
    obtain ⟨piece, rfl, -⟩ := isPiece_skip hs
    have : rest.length < (piece ++ rest).length := step_length (by rw [hs]; rfl)
    rw [places_of_skip hs, List.length_append, length_marks, length_places rest, List.length_append]
  | tag tag rest =>
    have : rest.length < cs.length := step_length (by rw [hs]; rfl)
    rw [places_of_tag hs, eq_of_step_tag hs]
    simp only [List.length_cons, List.length_append, Tag.length_places, length_places rest]
termination_by cs.length

end

-- the names are free, and so is the value of the verb, but neither the hint nor the text behind the tag
example : let cs := "<cffunction Name=\"get\" hint=\"A\"> B".toList
    (fixedChars (places cs) cs).map (·.getD '_') = "<__________ __________ ____=\"A\"> B".toList := by decide +kernel

end ResourceClient.Markup
