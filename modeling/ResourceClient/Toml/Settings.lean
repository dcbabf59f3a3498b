/-
Settings: a document whose every line gives a key one string, one truth value or one list of strings.
No key is given twice.
-/
import ResourceClient.Toml.Token

namespace ResourceClient.Toml

inductive Value
  | text (value : String)
  | flag (value : Bool)
  | texts (values : List String)
  deriving DecidableEq, Repr

/-- The items of a list after its opening bracket, and what follows the list; `separated` tells whether
an item may come next, or only a comma. Line breaks may stand anywhere, and a comma after the last item. -/
def items? (separated : Bool) : List Token → Option (List String × List Token)
  | [] => none
  | t :: ts =>
    match separated, t with
    | _, .lineBreak => items? separated ts
    | _, .closeBracket => some ([], ts)
    | true, .literal l => (items? false ts).map fun (values, rest) => (l.text :: values, rest)
    | false, .comma => items? true ts
    | _, _ => none

theorem items?_length {separated : Bool} {ts rest : List Token} {values : List String}
    (h : items? separated ts = some (values, rest)) : rest.length < ts.length := by
  induction ts generalizing separated values with
  | nil => cases h
  | cons t ts ih =>
    unfold items? at h
    split at h
    · exact Nat.lt_succ_of_lt (ih h)
    · cases h; simp
    · obtain ⟨⟨_, _⟩, h1, h2⟩ := Option.map_eq_some_iff.1 h
      cases h2
      exact Nat.lt_succ_of_lt (ih h1)
    · exact Nat.lt_succ_of_lt (ih h)
    · cases h

/-- The value that starts a list of tokens. -/
def value? : List Token → Option (Value × List Token)
  | .literal l :: ts => some (.text l.text, ts)
  | .word "true" :: ts => some (.flag true, ts)
  | .word "false" :: ts => some (.flag false, ts)
  | .openBracket :: ts => (items? true ts).map fun (values, rest) => (.texts values, rest)
  | _ => none

theorem value?_length {ts rest : List Token} {v : Value} (h : value? ts = some (v, rest)) :
    rest.length < ts.length := by
  unfold value? at h
  split at h
  · cases h; simp
  · cases h; simp
  · cases h; simp
  · obtain ⟨⟨_, _⟩, h1, h2⟩ := Option.map_eq_some_iff.1 h
    cases h2
    exact Nat.lt_succ_of_lt (items?_length h1)
  · cases h

/-- A key: a bare word, or a string on one line. -/
def key? : Token → Option String
  | .word text => some text
  | .literal l => if l.multiline then none else some l.text
  | _ => none

/-- The settings of a list of tokens, each ended by a line break or by the end of the document. -/
def lines? : List Token → Option (List (String × Value))
  | [] => some []
  | .lineBreak :: ts => lines? ts
  | t :: .equals :: ts =>
    match key? t, h : value? ts with
    | some key, some (value, []) => some [(key, value)]
    | some key, some (value, .lineBreak :: more) =>
      have := value?_length h
      (lines? more).map ((key, value) :: ·)
    | _, _ => none
  | _ => none
termination_by ts => ts.length
decreasing_by all_goals (simp only [List.length_cons] at *; omega)

/-- The settings of a document. -/
def settings? (document : String) : Option (List (String × Value)) :=
  let cs := document.toList
  ((tokens? (if cs.head? = some '\ufeff' then cs.drop 1 else cs)).bind lines?).filter
    fun settings => (settings.map (·.1)).Nodup

end ResourceClient.Toml
