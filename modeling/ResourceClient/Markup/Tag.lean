/-
Tags as they are delimited in a text. Everything between tags is passed over: characters, references,
comments, character data, document type declarations and processing instructions. A quote inside a tag
hides the characters up to the next quote of its kind.
-/
import ResourceClient.Markup.Error
import ResourceClient.Text.Blank
import ResourceClient.Text.Fold
import ResourceClient.Text.Search

namespace ResourceClient.Markup

open Text

/-- A tag, by what stands between its brackets and is no slash of its own. -/
inductive Tag
  | opening (content : List Char)
  | empty (content : List Char)
  | closing (content : List Char)
  deriving DecidableEq, Repr

/-- Tells the kinds of tags apart by a slash at either end. -/
def Tag.ofContent : List Char → Tag
  | '/' :: content => .closing content
  | content => if content.getLast? = some '/' then .empty content.dropLast else .opening content

/-- What is found at the start of a text. A fault keeps the text from where it is noticed on. -/
inductive Step
  | finished
  | fault (fault : ReadFault) (rest : List Char)
  | skip (rest : List Char)
  | tag (tag : Tag) (rest : List Char)
  deriving DecidableEq, Repr

/-! ## Ends -/

/-- Cuts a text at its first closing bracket outside quotes; `quote` is the open quote. -/
def cutTag (quote : Option Char) : List Char → Option (List Char × List Char)
  | [] => none
  | c :: cs =>
    match quote with
    | some q => (cutTag (if c = q then none else some q) cs).map fun (content, rest) => (c :: content, rest)
    | none =>
      if c = '>' then some ([], cs)
      else
        (cutTag (if c = '\x22' ∨ c = '\x27' then some c else none) cs).map
          fun (content, rest) => (c :: content, rest)

/-- Cuts a text at the closing bracket that is left over when `depth` more have been paired. -/
def cutBalanced (depth : Nat) : List Char → Option (List Char × List Char)
  | [] => none
  | c :: cs =>
    if c = '>' ∧ depth = 0 then some ([], cs)
    else
      (cutBalanced (if c = '>' then depth - 1 else if c = '<' then depth + 1 else depth) cs).map
        fun (content, rest) => (c :: content, rest)

theorem cutTag_length {quote : Option Char} {cs content rest : List Char}
    (h : cutTag quote cs = some (content, rest)) : rest.length < cs.length := by
  fun_induction cutTag quote cs generalizing content with
  | case1 => cases h
  | case2 c cs q ih =>
    obtain ⟨⟨_, _⟩, h1, h2⟩ := Option.map_eq_some_iff.1 h
    cases h2
    have := ih h1
    simp only [List.length_cons]; omega
  | case3 => cases h; simp
  | case4 c cs _ ih =>
    obtain ⟨⟨_, _⟩, h1, h2⟩ := Option.map_eq_some_iff.1 h
    cases h2
    have := ih h1
    simp only [List.length_cons]; omega

theorem cutBalanced_length {depth : Nat} {cs content rest : List Char}
    (h : cutBalanced depth cs = some (content, rest)) : rest.length < cs.length := by
  fun_induction cutBalanced depth cs generalizing content with
  | case1 => cases h
  | case2 => cases h; simp
  | case3 depth c cs _ ih =>
    obtain ⟨⟨_, _⟩, h1, h2⟩ := Option.map_eq_some_iff.1 h
    cases h2
    have := ih h1
    simp only [List.length_cons]; omega

/-! ## Pieces -/

/-- A reference, after its ampersand: it ends at a semicolon before any other ampersand or tag. -/
def readReference (cs : List Char) : Step :=
  match cs.dropWhile fun c => c != ';' && c != '&' && c != '<' with
  | ';' :: rest => .skip rest
  | _ => .fault .openReference ('&' :: cs)

/-- A comment, after `<!-`. -/
def readComment : List Char → Step
  | '-' :: cs => match after? "-->".toList cs with
    | some rest => .skip rest
    | none => .fault .openComment ('<' :: '!' :: '-' :: '-' :: cs)
  | cs => .fault .openComment ('<' :: '!' :: '-' :: cs)

/-- Character data, after `<![`. -/
def readCharacterData (cs : List Char) : Step :=
  match (strip? "CDATA[".toList cs).bind (after? "]]>".toList) with
  | some rest => .skip rest
  | none => .fault .openCharacterData ('<' :: '!' :: '[' :: cs)

/-- A document type declaration, after `<!`. It needs a name, and is noticed to lack one at its end. -/
def readDoctype (cs : List Char) : Step :=
  match cutBalanced 0 cs with
  | none => .fault .openDoctype ('<' :: '!' :: cs)
  | some (content, rest) =>
    match strip? "doctype".toList (foldChars content) with
    | none => .fault .openDoctype ('<' :: '!' :: cs)
    | some name => if name.all isMarkupBlank then .fault .namelessDoctype ('>' :: rest) else .skip rest

/-- A processing instruction or a declaration of the language, after `<?`. -/
def readInstruction (cs : List Char) : Step :=
  match cs with
  | '>' :: _ => .fault .openInstruction ('<' :: '?' :: cs)
  | _ => match after? "?>".toList cs with
    | some rest => .skip rest
    | none => .fault .openInstruction ('<' :: '?' :: cs)

/-- A tag, after `<`. -/
def readTag (cs : List Char) : Step :=
  match cutTag none cs with
  | some (content, rest) => .tag (.ofContent content) rest
  | none => .fault .openTag ('<' :: cs)

/-- Markup, after `<`. -/
def readMarkup : List Char → Step
  | '!' :: '-' :: cs => readComment cs
  | '!' :: '[' :: cs => readCharacterData cs
  | '!' :: cs =>
    if cs.head? = some 'D' ∨ cs.head? = some 'd' then readDoctype cs
    else .fault .unknownMarkup ('<' :: '!' :: cs)
  | '?' :: cs => readInstruction cs
  | cs => readTag cs

/-- The first thing in a text. -/
def step : List Char → Step
  | [] => .finished
  | '<' :: cs => readMarkup cs
  | '&' :: cs => readReference cs
  | _ :: cs => .skip cs

/-! ## Progress -/

/-- What a step leaves to read. -/
def Step.rest? : Step → Option (List Char)
  | .skip rest | .tag _ rest => some rest
  | .finished | .fault _ _ => none

theorem readReference_length {cs rest : List Char} (h : (readReference cs).rest? = some rest) :
    rest.length ≤ cs.length := by
  unfold readReference at h
  split at h
  · rename_i more h1
    cases h
    exact Nat.le_of_lt (length_of_dropWhile h1)
  · cases h

theorem readComment_length {cs rest : List Char} (h : (readComment cs).rest? = some rest) :
    rest.length ≤ cs.length := by
  unfold readComment at h
  split at h
  · split at h
    · rename_i h1
      cases h
      have := after?_length h1
      simp only [List.length_cons]; omega
    · cases h
  · cases h

theorem readCharacterData_length {cs rest : List Char} (h : (readCharacterData cs).rest? = some rest) :
    rest.length ≤ cs.length := by
  unfold readCharacterData at h
  split at h
  · rename_i h1
    cases h
    obtain ⟨body, h1, h2⟩ := Option.bind_eq_some_iff.1 h1
    have := strip?_length h1
    have := after?_length h2
    omega
  · cases h

theorem readDoctype_length {cs rest : List Char} (h : (readDoctype cs).rest? = some rest) :
    rest.length ≤ cs.length := by
  unfold readDoctype at h
  split at h
  · cases h
  · rename_i h1
    have := cutBalanced_length h1
    split at h
    · cases h
    · split at h
      · cases h
      · cases h; omega

theorem readInstruction_length {cs rest : List Char} (h : (readInstruction cs).rest? = some rest) :
    rest.length ≤ cs.length := by
  unfold readInstruction at h
  split at h
  · cases h
  · split at h
    · rename_i h1
      cases h
      have := after?_length h1
      omega
    · cases h

theorem readTag_length {cs rest : List Char} (h : (readTag cs).rest? = some rest) :
    rest.length ≤ cs.length := by
  unfold readTag at h
  split at h
  · rename_i h1
    cases h
    exact Nat.le_of_lt (cutTag_length h1)
  · cases h

theorem readMarkup_length {cs rest : List Char} (h : (readMarkup cs).rest? = some rest) :
    rest.length ≤ cs.length := by
  unfold readMarkup at h
  split at h
  · have := readComment_length h; simp only [List.length_cons]; omega
  · have := readCharacterData_length h; simp only [List.length_cons]; omega
  · split at h
    · have := readDoctype_length h; simp only [List.length_cons]; omega
    · cases h
  · have := readInstruction_length h; simp only [List.length_cons]; omega
  · exact readTag_length h

/-- A step that leaves something to read has read something. -/
theorem step_length {cs rest : List Char} (h : (step cs).rest? = some rest) : rest.length < cs.length := by
  unfold step at h
  split at h
  · cases h
  · have := readMarkup_length h; simp only [List.length_cons]; omega
  · have := readReference_length h; simp only [List.length_cons]; omega
  · cases h; simp

end ResourceClient.Markup
