/-
The comments of a line. Every line can be taken apart in one way only into texts and the comments between them, each
comment up to the first closing mark behind its opening one, and what is left of the line are its texts put together.
-/
import ResourceClient.Proofs.Source.Declarations
import ResourceClient.Proofs.Source.LetterCase
import ResourceClient.Proofs.Text.Search

namespace ResourceClient.Source

open Text

/-! ## The first comment -/

/-- A comment by what it says. -/
def comment (body : List Char) : List Char :=
  commentOpening ++ (body ++ commentClosing)

section

variable {text body rest cs : List Char}

theorem borderless_opening : Borderless commentOpening := by
  decide

theorem borderless_closing : Borderless commentClosing := by
  decide

theorem comment_append (body rest : List Char) :
    comment body ++ rest = commentOpening ++ (body ++ (commentClosing ++ rest)) := by
  rw [comment, List.append_assoc, List.append_assoc]

theorem comment?_comment (h : ¬commentClosing <:+: body) (rest : List Char) :
    comment? (comment body ++ rest) = some rest := by
  rw [comment_append, comment?, strip?_append, Option.bind_some, borderless_closing.after?_append h]

theorem exists_of_comment? (h : comment? cs = some rest) :
    ∃ body, cs = comment body ++ rest ∧ ¬commentClosing <:+: body := by
  obtain ⟨behind, hopen, hclose⟩ := Option.bind_eq_some_iff.1 h
  obtain ⟨body, rfl, hbody⟩ := exists_of_after? (by decide) hclose
  exact ⟨body, by rw [strip?_eq_some.1 hopen, comment_append], hbody⟩

theorem comment?_eq_none_iff :
    comment? cs = none ↔ ∀ behind, cs = commentOpening ++ behind → ¬commentClosing <:+: behind := by
  rw [comment?, Option.bind_eq_none_iff]
  refine forall_congr' fun behind => ?_
  rw [strip?_eq_some, ← isSome_after?_iff, Option.not_isSome_iff_eq_none]

/-- No comment starts in a text before the first opening mark. -/
theorem comment?_append_eq_none (hne : text ≠ []) (h : ¬commentOpening <:+: text) (body rest : List Char) :
    comment? (text ++ (comment body ++ rest)) = none := by
  rw [comment?_eq_none_iff, comment_append]
  intro behind he
  exact absurd ⟨behind, he.symm⟩ (borderless_opening.not_prefix hne h _)

/-- A text and the first comment are followed by the rest of the line. -/
theorem stripComments_append (ht : ¬commentOpening <:+: text) (hb : ¬commentClosing <:+: body) (rest : List Char) :
    stripComments (text ++ (comment body ++ rest)) = text ++ stripComments rest := by
  induction text with
  | nil => exact stripComments_of_comment? (comment?_comment hb rest)
  | cons c text ih =>
    have hnone := comment?_append_eq_none (by simp) ht body rest
    have htext : ¬commentOpening <:+: text := fun hi => ht (hi.trans (List.suffix_cons c text).isInfix)
    rw [List.cons_append] at hnone ⊢
    rw [stripComments_cons hnone, ih htext, List.cons_append]

end

/-! ## Lines taken apart -/

/-- A line taken apart: a text without comments, or a text with a comment behind it and the rest of the line. -/
inductive CommentedLine
  | plain (tail : List Char)
  | commented (text body : List Char) (rest : CommentedLine)

namespace CommentedLine

/-- The line itself. -/
def line : CommentedLine → List Char
  | plain tail => tail
  | commented text body rest => text ++ (comment body ++ rest.line)

/-- The texts of the line, put together. -/
def text : CommentedLine → List Char
  | plain tail => tail
  | commented text _ rest => text ++ rest.text

/-- No comment opens before the one that follows a text, and none closes before its end. What opens in the last text is
not closed. -/
inductive IsProper : CommentedLine → Prop
  | plain {tail : List Char}
    (unclosed : ∀ before behind, tail = before ++ (commentOpening ++ behind) → ¬commentClosing <:+: behind) :
    IsProper (plain tail)
  | commented {text body : List Char} {rest : CommentedLine} (unopened : ¬commentOpening <:+: text)
    (unclosed : ¬commentClosing <:+: body) (h : IsProper rest) : IsProper (commented text body rest)

variable {l l' : CommentedLine} {cs tail : List Char}

/-- A text in which no comment is closed is left as it is. -/
theorem stripComments_tail
    (h : ∀ before behind, tail = before ++ (commentOpening ++ behind) → ¬commentClosing <:+: behind) :
    stripComments tail = tail := by
  induction tail with
  | nil => exact stripComments_eq_self (by decide)
  | cons c tail ih =>
    rw [stripComments_cons (comment?_eq_none_iff.2 fun behind => h [] behind),
      ih fun before behind he => h (c :: before) behind (by rw [he, List.cons_append])]

/-- What is left of a line are its texts. -/
theorem IsProper.stripComments_line (h : l.IsProper) : stripComments l.line = l.text := by
  induction h with
  | plain unclosed => exact stripComments_tail unclosed
  | commented unopened unclosed _ ih => rw [line, text, stripComments_append unopened unclosed, ih]

/-- A character at which no comment starts belongs to the first text. -/
theorem IsProper.exists_cons {c : Char} (h : l.IsProper) (hc : comment? (c :: l.line) = none) :
    ∃ l' : CommentedLine, l'.IsProper ∧ l'.line = c :: l.line := by
  rw [comment?_eq_none_iff] at hc
  cases h with
  | @plain tail unclosed =>
    refine ⟨.plain (c :: tail), .plain fun before behind he => ?_, rfl⟩
    cases before with
    | nil => exact hc behind he
    | cons d before => exact unclosed before behind (List.cons.inj he).2
  | @commented text body rest unopened unclosed h =>
    refine ⟨.commented (c :: text) body rest, .commented (fun hi => ?_) unclosed h, rfl⟩
    rcases List.infix_cons_iff.1 hi with ⟨more, hmore⟩ | hi
    · -- what opens at `c` would be closed where the comment behind the text is
      refine hc (more ++ (comment body ++ rest.line)) ?_ ⟨more ++ (commentOpening ++ body), rest.line, ?_⟩
      · rw [← List.append_assoc, hmore]
        rfl
      · rw [comment_append]
        simp only [List.append_assoc]
    · exact unopened hi

/-- Every line can be taken apart. -/
theorem exists_isProper (cs : List Char) : ∃ l : CommentedLine, l.IsProper ∧ l.line = cs := by
  fun_induction stripComments cs with
  | case1 cs rest h _ ih =>
    obtain ⟨l, hl, rfl⟩ := ih
    obtain ⟨body, rfl, hbody⟩ := exists_of_comment? h
    exact ⟨.commented [] body l, .commented (by decide) hbody hl, rfl⟩
  | case2 h =>
    refine ⟨.plain [], .plain fun before behind he => ?_, rfl⟩
    obtain ⟨-, hopening⟩ := List.append_eq_nil_iff.1 he.symm
    exact absurd (List.append_eq_nil_iff.1 hopening).1 (by decide)
  | case3 c cs h ih =>
    obtain ⟨l, hl, rfl⟩ := ih
    exact hl.exists_cons h

theorem not_isProper_plain {text body rest : List Char} (he : tail = text ++ (comment body ++ rest)) :
    ¬(plain tail).IsProper := by
  rintro (unclosed | _)
  rw [comment_append] at he
  exact unclosed text _ he ⟨body, rest, by rw [List.append_assoc]⟩

/-- A line can be taken apart in one way only. -/
theorem IsProper.eq_of_line_eq (h : l.IsProper) (h' : l'.IsProper) (he : l.line = l'.line) : l = l' := by
  induction h generalizing l' with
  | plain unclosed =>
    cases h' with
    | plain _ => exact congrArg CommentedLine.plain he
    | commented _ _ _ => exact absurd (.plain unclosed) (not_isProper_plain he)
  | commented unopened unclosed _ ih =>
    cases h' with
    | plain unclosed' => exact absurd (.plain unclosed') (not_isProper_plain he.symm)
    | commented unopened' unclosed' hrest' =>
      rw [line, line, comment_append, comment_append] at he
      obtain ⟨rfl, hbehind⟩ := borderless_opening.append_inj unopened unopened' he
      obtain ⟨rfl, hrest⟩ := borderless_closing.append_inj unclosed unclosed' hbehind
      rw [ih hrest' hrest]

end CommentedLine

/-- Every line is taken apart in exactly one way. When it is the whole of a source and mentions a declaring element, in
a text or in a comment, its texts are what is left of the source. -/
theorem declarations_commentedLine (line : List Char) :
    (∃! l : CommentedLine, l.IsProper ∧ l.line = line) ∧
    ∀ l : CommentedLine, l.IsProper → l.line = line → '\n' ∉ line →
      (∃ word ∈ keywords, word.toList <:+: foldChars line) →
      declarations (String.ofList line) = String.ofList l.text := by
  constructor
  · obtain ⟨l, hl, hline⟩ := CommentedLine.exists_isProper line
    exact ⟨l, ⟨hl, hline⟩, fun l' h' => h'.1.eq_of_line_eq hl (h'.2.trans hline.symm)⟩
  · rintro l hl rfl hline hword
    have hdeclaration := isDeclaration_iff.2 hword
    have hne : l.line ≠ [] := by
      intro he
      rw [he] at hdeclaration
      exact absurd hdeclaration (by decide)
    rw [declarations, String.toList_ofList, declarationLines, lines_eq_singleton hline hne,
      List.filter_cons_of_pos hdeclaration, List.filter_nil, List.map_singleton, List.intercalate_singleton,
      hl.stripComments_line]

/-- Comments whose marks run into what they say, with a declaring element between them, and one that is not closed. -/
def dashedLine : CommentedLine :=
  .commented [] ">x-".toList (.commented "<CFArgument>".toList " a ".toList (.plain "<!--- b".toList))

theorem declarations_commentedLine_dashed :
    dashedLine.IsProper ∧ dashedLine.line = "<!--->x----><CFArgument><!--- a ---><!--- b".toList ∧
      declarations "<!--->x----><CFArgument><!--- a ---><!--- b" = "<CFArgument><!--- b" := by
  have hproper : dashedLine.IsProper := by
    refine .commented (by decide) (by decide) (.commented (by decide) (by decide) (.plain ?_))
    intro before behind he hi
    -- nothing at all is closed in the last text
    have hall : commentClosing <:+: "<!--- b".toList := by
      rw [he, ← List.append_assoc]
      exact hi.trans (List.suffix_append _ behind).isInfix
    exact absurd hall (by decide)
  have hline : dashedLine.line = "<!--->x----><CFArgument><!--- a ---><!--- b".toList := by decide
  refine ⟨hproper, hline, ?_⟩
  have h := (declarations_commentedLine _).2 dashedLine hproper hline (by decide) (by decide)
  rw [String.ofList_toList] at h
  rw [h]
  decide

end ResourceClient.Source
