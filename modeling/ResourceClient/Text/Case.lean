/-
Full case conversion: a character may become several, and a capital sigma that ends a word becomes
the final small sigma.
-/
import ResourceClient.Text.CaseTable

namespace ResourceClient.Text

/-- The image of a code point under a list of runs. -/
def applyRuns (runs : List (Nat × Nat × Nat × Nat)) (n : Nat) : Option Nat :=
  (runs.find? fun (first, last, step, _) => first ≤ n && n ≤ last && (n - first) % step == 0).map
    fun (first, _, _, target) => target + (n - first)

/-- The image of a character: an expansion, a run, or itself. -/
def mapChar (expansions : List (Nat × List Nat)) (runs : List (Nat × Nat × Nat × Nat)) (c : Char) : List Char :=
  match expansions.lookup c.toNat with
  | some image => image.map Char.ofNat
  | none => match applyRuns runs c.toNat with
    | some n => [Char.ofNat n]
    | none => [c]

/-- The upper case of one character. -/
def upperChar : Char → List Char :=
  mapChar CaseTable.upperExpansions CaseTable.upperRuns

/-- The lower case of one character, wherever it stands. -/
def lowerChar : Char → List Char :=
  mapChar CaseTable.lowerExpansions CaseTable.lowerRuns

def inRanges (ranges : List (Nat × Nat)) (c : Char) : Bool :=
  ranges.any fun (first, last) => first ≤ c.toNat && c.toNat ≤ last

/-- Whether the first character that is not case-ignorable is a cased one. -/
def startsCased (cs : List Char) : Bool :=
  match cs.dropWhile (inRanges CaseTable.ignorableRanges) with
  | [] => false
  | c :: _ => inRanges CaseTable.casedRanges c

/-- The lower case of `cs`, which follows the reverse of `before`. A capital sigma is final when a
cased letter comes before it and none after it. -/
def lowerAfter (before : List Char) : List Char → List Char
  | [] => []
  | c :: cs =>
    (if c = 'Σ' then [if startsCased before && !startsCased cs then 'ς' else 'σ'] else lowerChar c) ++
      lowerAfter (c :: before) cs

/-- The lower case of a text. -/
def lower (s : String) : String :=
  String.ofList (lowerAfter [] s.toList)

/-- The text with its first character in upper case. -/
def capitalize (s : String) : String :=
  match s.toList with
  | [] => ""
  | c :: cs => String.ofList (upperChar c ++ cs)

end ResourceClient.Text
