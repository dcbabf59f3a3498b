/-
Queries read back. The query of an object has a piece for each entry, between ampersands, and the two halves of a piece
are the encoded key and the encoded value. None of the signs that keep these apart stands in what they keep apart, so a
request whose data goes into the query tells by its URL alone which resource it is for and which entries it sends.
-/
import ResourceClient.Resource
import ResourceClient.Proofs.Text.Percent
import Mathlib.Data.List.Forall2

namespace ResourceClient

open Text

namespace Query

/-! ## Reading -/

/-- What may stand behind the question mark of a query. -/
def isQueryChar (c : Char) : Bool :=
  c.isAlphanum || ['-', '_', '.', '!', '~', '*', '\x27', '(', ')', '%', '&', '='].contains c

/-- The key and the value of a piece. -/
def readEntry? (piece : List Char) : Option (String × String) :=
  match piece.splitOn '=' with
  | [key, value] => (Percent.decode? key).bind fun k => (Percent.decode? value).map fun v => (k, v)
  | _ => none

/-- The entries of a query. -/
def read? : List Char → Option (List (String × String))
  | [] => some []
  | '?' :: body => (body.splitOn '&').mapM readEntry?
  | _ => none

/-- A URL without its query, which begins at the first question mark, and the entries of the query. -/
def readUrl? (url : String) : Option (String × List (String × String)) :=
  (read? (url.toList.dropWhile (· != '?'))).map fun entries =>
    (String.ofList (url.toList.takeWhile (· != '?')), entries)

/-- The text of an entry's value. -/
def entryTexts (entry : String × Data) : String × String :=
  (entry.1, String.ofList (valueText entry.2))

/-- The keys of data with the texts of their values, in their order; only objects have any. -/
def textsOf : Data → List (String × String)
  | .object entries => entries.map entryTexts
  | _ => []

/-- A piece of a query with one equals sign, whose halves decode to the key and the value text of an entry. -/
def IsPieceOf (entry : String × Data) (piece : List Char) : Prop :=
  ∃ key value, piece = key ++ '=' :: value ∧ '=' ∉ key ∧ '=' ∉ value ∧
    Percent.decode? key = some entry.1 ∧ Percent.decode? value = some (String.ofList (valueText entry.2))

theorem IsPieceOf.readEntry? {entry : String × Data} {piece : List Char} (h : IsPieceOf entry piece) :
    readEntry? piece = some (entryTexts entry) := by
  obtain ⟨key, value, rfl, hkey, hvalue, hk, hv⟩ := h
  have hsplit : (key ++ '=' :: value).splitOn '=' = [key, value] := by
    rw [List.splitOn_append_cons_self, List.splitOn_eq_singleton hkey, List.splitOn_eq_singleton hvalue]
    rfl
  rw [Query.readEntry?, hsplit]
  simp only [hk, hv, Option.bind_some, Option.map_some]
  rfl

/-! ## Pieces -/

theorem isPieceOf_entryText (entry : String × Data) : IsPieceOf entry (entryText entry) := by
  refine ⟨_, _, rfl, ?_, ?_, ?_, Percent.decode?_encode _⟩
  · exact Percent.not_mem_encode (by decide) (by decide) _
  · exact Percent.not_mem_encode (by decide) (by decide) _
  · rw [Percent.decode?_encode, String.ofList_toList]

theorem of_mem_entryText {entry : String × Data} {c : Char} (h : c ∈ entryText entry) :
    Percent.isUnreserved c = true ∨ c = '%' ∨ c = '=' := by
  rcases List.mem_append.1 h with h | h
  · exact (Percent.of_mem_encode h).imp_right .inl
  · rcases List.mem_cons.1 h with rfl | h
    · exact .inr (.inr rfl)
    · exact (Percent.of_mem_encode h).imp_right .inl

theorem ampersand_not_mem_entryText (entry : String × Data) : '&' ∉ entryText entry := by
  intro h
  rcases of_mem_entryText h with h | h | h <;> cases h

theorem isQueryChar_of_isUnreserved {c : Char} (h : Percent.isUnreserved c = true) : isQueryChar c = true := by
  rw [Percent.isUnreserved, Bool.or_eq_true] at h
  rw [isQueryChar, Bool.or_eq_true]
  refine h.imp_right fun hmem => ?_
  simp only [List.contains_eq_mem, decide_eq_true_eq] at hmem ⊢
  exact List.mem_append_left ['%', '&', '='] hmem

theorem isQueryChar_of_mem_intercalate {entries : List (String × Data)} {c : Char}
    (h : c ∈ ['&'].intercalate (entries.map entryText)) : isQueryChar c = true := by
  induction entries with
  | nil => cases h
  | cons entry entries ih =>
    have hentry : c ∈ entryText entry → isQueryChar c = true := by
      intro hc
      rcases of_mem_entryText hc with hc | rfl | rfl
      · exact isQueryChar_of_isUnreserved hc
      · rfl
      · rfl
    cases entries with
    | nil =>
      rw [List.map_singleton, List.intercalate_singleton] at h
      exact hentry h
    | cons next entries =>
      rw [List.map_cons, List.map_cons, List.intercalate_cons_cons, List.mem_append, List.mem_append,
        List.mem_singleton] at h
      rcases h with (h | rfl) | h
      · exact hentry h
      · rfl
      · exact ih h

/-! ## Queries -/

/-- The query of an object: nothing for an empty one, and otherwise a question mark and a piece for each entry, in their
order and between ampersands. -/
structure IsQueryOf (entries : List (String × Data)) (query : String) : Prop where
  empty_iff : query = "" ↔ entries = []
  pieces : entries ≠ [] → ∃ body, query = String.ofList ('?' :: body) ∧ (∀ c ∈ body, isQueryChar c = true) ∧
    List.Forall₂ IsPieceOf entries (body.splitOn '&')

theorem exists_body {entries : List (String × Data)} (h : entries ≠ []) :
    ∃ body, encode (.object entries) = String.ofList ('?' :: body) ∧ (∀ c ∈ body, isQueryChar c = true) ∧
      List.Forall₂ IsPieceOf entries (body.splitOn '&') := by
  obtain ⟨entry, rest, rfl⟩ := List.exists_cons_of_ne_nil h
  refine ⟨_, rfl, fun c => isQueryChar_of_mem_intercalate, ?_⟩
  have hfree : ∀ piece ∈ (entry :: rest).map entryText, '&' ∉ piece := by
    intro piece hp
    obtain ⟨e, -, rfl⟩ := List.mem_map.1 hp
    exact ampersand_not_mem_entryText e
  rw [List.splitOn_intercalate _ hfree (by simp), List.forall₂_map_right_iff, List.forall₂_same]
  exact fun e _ => isPieceOf_entryText e

theorem isQueryOf_encode (entries : List (String × Data)) : IsQueryOf entries (encode (.object entries)) where
  empty_iff := by
    constructor
    · intro h
      by_contra hne
      obtain ⟨body, hquery, -⟩ := exists_body hne
      rw [h] at hquery
      have hempty : [] = '?' :: body := by simpa using congrArg String.toList hquery
      cases hempty
    · rintro rfl
      rfl
  pieces := exists_body

theorem mapM_readEntry? {entries : List (String × Data)} {pieces : List (List Char)}
    (h : List.Forall₂ IsPieceOf entries pieces) : pieces.mapM readEntry? = some (entries.map entryTexts) := by
  induction h with
  | nil => rfl
  | cons hentry _ ih =>
    rw [List.mapM_cons, hentry.readEntry?, ih]
    rfl

/-- A query is empty or begins with its question mark, and is read back as the entries of its data. -/
theorem read?_encode (data : Data) : ((encode data).toList = [] ∨ ∃ body, (encode data).toList = '?' :: body) ∧
    read? (encode data).toList = some (textsOf data) := by
  cases data with
  | object entries =>
    by_cases h : entries = []
    · subst h
      exact ⟨.inl rfl, rfl⟩
    · obtain ⟨body, hquery, -, hpieces⟩ := exists_body h
      rw [hquery, String.toList_ofList, read?, mapM_readEntry? hpieces]
      exact ⟨.inr ⟨body, rfl⟩, rfl⟩
  | _ => exact ⟨.inl rfl, rfl⟩

/-- A URL without a question mark is told apart from the query behind it. -/
theorem readUrl?_append {url : String} (h : '?' ∉ url.toList) (data : Data) :
    readUrl? (url ++ encode data) = some (url, textsOf data) := by
  have hall : ∀ c ∈ url.toList, (c != '?') = true := by
    intro c hc
    rw [bne_iff_ne]
    rintro rfl
    exact h hc
  obtain ⟨hmark, hread⟩ := read?_encode data
  have hcut : (encode data).toList.takeWhile (· != '?') = [] ∧
      (encode data).toList.dropWhile (· != '?') = (encode data).toList := by
    rcases hmark with hnil | ⟨body, hbody⟩
    · rw [hnil]
      exact ⟨rfl, rfl⟩
    · rw [hbody]
      exact ⟨rfl, rfl⟩
  rw [readUrl?, String.toList_append, List.dropWhile_append_of_pos hall, List.takeWhile_append_of_pos hall, hcut.1,
    hcut.2, hread, List.append_nil, String.ofList_toList, Option.map_some]

end Query

/-- The query of an object can be decoded entry by entry. So the URL of a request without a body tells the resource,
when its own URL has no question mark, and the entries that are sent, while a request with a body has the URL of the
resource and the data as they are. -/
theorem query_decodes (entries : List (String × Data)) (url : String) (verb : Verb) (data options : Option Data) :
    Query.IsQueryOf entries (Query.encode (.object entries)) ∧
    (verb ∈ [Verb.get, .delete] → ∃ sent, dispatch url verb data options = ⟨verb, sent, none, options⟩ ∧
      ('?' ∉ url.toList → Query.readUrl? sent = some (url, (data.map Query.textsOf).getD []))) ∧
    (verb ∈ [Verb.post, .put, .patch] → dispatch url verb data options = ⟨verb, url, data, options⟩) := by
  refine ⟨Query.isQueryOf_encode entries, fun hverb => ?_, fun hverb => ?_⟩
  · have hbody : verb.sendsBody = false := by
      revert verb
      decide
    refine ⟨_, by rw [dispatch, if_neg (by rw [hbody]; decide)], fun hurl => ?_⟩
    cases data with
    | none => exact Query.readUrl?_append hurl .null
    | some d => exact Query.readUrl?_append hurl d
  · have hbody : verb.sendsBody = true := by
      revert verb
      decide
    rw [dispatch, if_pos hbody]

/-- Keys and values in which are the signs of a query, and an empty key. -/
theorem query_decodes_signs :
    '?' ∉ "/items/7".toList ∧
    (∃ sent, dispatch "/items/7" .get (some (.object [("a&b=?%", .text "é/"), ("", .list [.null, .integer 3])])) none =
        ⟨.get, sent, none, none⟩ ∧
      Query.readUrl? sent = some ("/items/7", [("a&b=?%", "é/"), ("", ",3")])) ∧
    dispatch "/items/7" .put (some .null) none = ⟨.put, "/items/7", some .null, none⟩ := by
  have hurl : '?' ∉ "/items/7".toList := by decide
  obtain ⟨-, hget, -⟩ := query_decodes [] "/items/7" .get
    (some (.object [("a&b=?%", .text "é/"), ("", .list [.null, .integer 3])])) none
  obtain ⟨-, -, hput⟩ := query_decodes [] "/items/7" .put (some .null) none
  obtain ⟨sent, hsent, hread⟩ := hget (by decide)
  refine ⟨hurl, ⟨sent, hsent, ?_⟩, hput (by decide)⟩
  rw [hread hurl]
  decide +kernel

end ResourceClient
