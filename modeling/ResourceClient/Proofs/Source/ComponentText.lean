/-
Components and the sources that declare them: one tag to a line, attributes in double quotes, and any other
lines between. Of such a source the tags are kept, and they are parsed into the one element that they
declare.
-/
import ResourceClient.Endpoint.Basic
import ResourceClient.Proofs.Markup.Nesting
import ResourceClient.Proofs.Markup.TagText
import ResourceClient.Proofs.Source.Declarations

namespace ResourceClient

open Text Markup Source

/-- A public function of a component. -/
structure PublicFunction where
  name : String
  arguments : List Argument
  deriving DecidableEq, Repr

/-- The component of a resource. -/
structure ResourceComponent where
  uri : String
  functions : List PublicFunction
  deriving DecidableEq, Repr

/-! ## Writing -/

def Argument.entries (a : Argument) : List (String × String) :=
  ("name", a.name) :: ("type", a.type.name) :: (match a.required with
    | none => []
    | some required => [("required", if required then "true" else "false")])

def PublicFunction.entries (f : PublicFunction) : List (String × String) :=
  [("name", f.name), ("access", "public")]

def ResourceComponent.entries (r : ResourceComponent) : List (String × String) :=
  [("taffy_uri", r.uri)]

/-- The tag of an argument. -/
def WritesArgument (a : Argument) (line : List Char) : Prop :=
  WritesOpening "cfargument" a.entries line

/-- The tags of a function, each in a line: its own and those of its arguments. -/
def WritesFunction (f : PublicFunction) (lines : List (List Char)) : Prop :=
  ∃ opening arguments, WritesOpening "cffunction" f.entries opening ∧
    List.Forall₂ WritesArgument f.arguments arguments ∧
    lines = opening :: (arguments ++ [closingText "cffunction"])

/-- The tags of a component, each in a line: its own and those of its functions. -/
def WritesComponent (r : ResourceComponent) (lines : List (List Char)) : Prop :=
  ∃ opening functions, WritesOpening "cfcomponent" r.entries opening ∧
    List.Forall₂ WritesFunction r.functions functions ∧
    lines = opening :: (functions.flatten ++ [closingText "cfcomponent"])

/-- The sources of a component: its tags with any other lines between. -/
def ResourceComponent.IsDeclaredIn (r : ResourceComponent) (source : String) : Prop :=
  ∃ tags all, WritesComponent r tags ∧ Interspersed tags all ∧ source.toList = ['\n'].intercalate all

/-! ## One source -/

def PublicFunction.lines (f : PublicFunction) : List (List Char) :=
  openingText "cffunction" f.entries ::
    (f.arguments.map (fun a => openingText "cfargument" a.entries) ++ [closingText "cffunction"])

def ResourceComponent.lines (r : ResourceComponent) : List (List Char) :=
  openingText "cfcomponent" r.entries ::
    ((r.functions.map PublicFunction.lines).flatten ++ [closingText "cfcomponent"])

theorem isTagName_key : ∀ key ∈ ["taffy_uri", "name", "access", "type", "required"], IsTagName key := by
  intro key hk
  simp only [List.mem_cons, List.not_mem_nil, or_false] at hk
  rcases hk with rfl | rfl | rfl | rfl | rfl <;> exact ⟨by decide, by decide⟩

theorem isTagName_of_mem_entries {a : Argument} : ∀ e ∈ a.entries, IsTagName e.1 := by
  intro e he
  simp only [Argument.entries, List.mem_cons] at he
  rcases he with rfl | rfl | he
  · exact isTagName_key "name" (by decide)
  · exact isTagName_key "type" (by decide)
  · split at he
    · cases he
    · rw [List.mem_singleton.1 he]
      exact isTagName_key "required" (by decide)

theorem PublicFunction.writes_lines (f : PublicFunction) : WritesFunction f f.lines := by
  have hf : ∀ e ∈ f.entries, IsTagName e.1 := by
    intro e he
    simp only [PublicFunction.entries, List.mem_cons, List.not_mem_nil, or_false] at he
    rcases he with rfl | rfl
    · exact isTagName_key "name" (by decide)
    · exact isTagName_key "access" (by decide)
  refine ⟨_, _, writesOpening_text "cffunction" hf, ?_, rfl⟩
  rw [List.forall₂_map_right_iff, List.forall₂_same]
  exact fun a _ => writesOpening_text "cfargument" isTagName_of_mem_entries

/-- Every component can be written. -/
theorem ResourceComponent.writes_lines (r : ResourceComponent) : WritesComponent r r.lines := by
  have hr : ∀ e ∈ r.entries, IsTagName e.1 := by
    intro e he
    rw [ResourceComponent.entries, List.mem_singleton] at he
    rw [he]
    exact isTagName_key "taffy_uri" (by decide)
  refine ⟨_, _, writesOpening_text "cfcomponent" hr, ?_, rfl⟩
  rw [List.forall₂_map_right_iff, List.forall₂_same]
  exact fun f _ => f.writes_lines

/-! ## Tags as lines -/

theorem Markup.WritesAttributes.chars {entries : List (String × String)} {attributes : List Char}
    (h : WritesAttributes entries attributes) : ∀ c ∈ attributes, c ≠ '<' ∧ c ≠ '\n' := by
  induction h with
  | nil => intro c hc; cases hc
  | @cons key value text more entries hk hv h ih =>
    intro c hc
    simp only [attributeText, List.mem_append, List.mem_cons, List.not_mem_nil, or_false] at hc
    rcases hc with (rfl | hc | rfl | rfl | hc | rfl) | hc
    · decide
    · exact ⟨ne_of_class (hk.mem c hc) (by decide), ne_of_class (hk.mem c hc) (by decide)⟩
    · decide
    · decide
    · have ht := hv.isTextChar c hc
      simp only [isTextChar, Bool.and_eq_true, bne_iff_ne] at ht
      exact ⟨ht.1.1.1, ht.2⟩
    · decide
    · exact ih c hc

/-- A tag is kept if it mentions a keyword and is not taken for a comment. -/
theorem isKept_tag {name : String} {content : List Char} (hk : name ∈ keywords)
    (hm : name.toList <:+: foldChars content) (hc : ∀ c ∈ content, c ≠ '<' ∧ c ≠ '\n')
    (hfirst : content.head? ≠ some '!') : IsKept ('<' :: (content ++ ['>'])) := by
  have hall : ∀ c ∈ content ++ ['>'], c ≠ '<' ∧ c ≠ '\n' := by
    intro c hmem
    rcases List.mem_append.1 hmem with hmem | hmem
    · exact hc c hmem
    · rw [List.mem_singleton.1 hmem]
      decide
  constructor
  · intro hmem
    rcases List.mem_cons.1 hmem with hmem | hmem
    · exact absurd hmem (by decide)
    · exact (hall _ hmem).2 rfl
  · rw [← List.cons_append, List.getLast?_concat]
    decide
  · refine isDeclaration_iff.2 ⟨name, hk, hm.trans ⟨['<'], ['>'], ?_⟩⟩
    show ['<'] ++ foldChars content ++ ['>'] = foldChars (['<'] ++ content ++ ['>'])
    rw [foldChars_append, foldChars_append]
    rfl
  · have hopening : commentOpening = '<' :: '!' :: "---".toList := rfl
    rw [hopening, List.infix_cons_iff]
    rintro (hp | hi)
    · -- only the first bracket of the tag could open a comment
      obtain ⟨more, hmore⟩ := (List.cons_prefix_cons.1 hp).2
      cases content with
      | nil => cases hmore
      | cons c content =>
        rw [List.cons_append, List.cons_append] at hmore
        exact hfirst (by rw [(List.cons.inj hmore).1]; rfl)
    · exact (hall _ (hi.subset List.mem_cons_self)).1 rfl

theorem isKept_opening {name : String} {entries : List (String × String)} {line : List Char}
    (hn : IsTagName name) (hk : name ∈ keywords) (h : WritesOpening name entries line) : IsKept line := by
  obtain ⟨attributes, ha, rfl⟩ := h
  apply isKept_tag hk
  · refine ⟨[], foldChars attributes, ?_⟩
    rw [foldChars_append, hn.foldChars]
    rfl
  · intro c hc
    rcases List.mem_append.1 hc with hc | hc
    · exact ⟨ne_of_class (hn.mem c hc) (by decide), ne_of_class (hn.mem c hc) (by decide)⟩
    · exact ha.chars c hc
  · obtain ⟨c, chars, hc⟩ := List.exists_cons_of_ne_nil hn.ne_nil
    have hfirst : c ≠ '!' := ne_of_class (hn.mem c (by rw [hc]; exact List.mem_cons_self)) (by decide)
    rw [hc]
    simpa using hfirst

theorem isKept_closing {name : String} (hn : IsTagName name) (hk : name ∈ keywords) :
    IsKept (closingText name) := by
  have htext : closingText name = '<' :: (('/' :: name.toList) ++ ['>']) := rfl
  rw [htext]
  apply isKept_tag hk
  · refine ⟨['/'], [], ?_⟩
    show ['/'] ++ name.toList ++ [] = foldChars (['/'] ++ name.toList)
    rw [foldChars_append, hn.foldChars, List.append_nil]
    rfl
  · intro c hc
    rcases List.mem_cons.1 hc with rfl | hc
    · decide
    · exact ⟨ne_of_class (hn.mem c hc) (by decide), ne_of_class (hn.mem c hc) (by decide)⟩
  · simp

/-! ## Events and elements -/

def Argument.event (a : Argument) : Event :=
  .opening "cfargument" (.ofList a.entries)

def PublicFunction.events (f : PublicFunction) : List Event :=
  .opening "cffunction" (.ofList f.entries) :: (f.arguments.map Argument.event ++ [.closing "cffunction"])

def ResourceComponent.events (r : ResourceComponent) : List Event :=
  .opening "cfcomponent" (.ofList r.entries) ::
    (r.functions.flatMap PublicFunction.events ++ [.closing "cfcomponent"])

def Argument.element (a : Argument) : Element :=
  ⟨"cfargument", .ofList a.entries, []⟩

def PublicFunction.element (f : PublicFunction) : Element :=
  ⟨"cffunction", .ofList f.entries, f.arguments.map Argument.element⟩

def ResourceComponent.element (r : ResourceComponent) : Element :=
  ⟨"cfcomponent", .ofList r.entries, r.functions.map PublicFunction.element⟩

/-- A line that is kept and read as one event. -/
def IsKeptAs (e : Event) (line : List Char) : Prop :=
  IsLineOf e line ∧ IsKept line

theorem isTagName_cfcomponent : IsTagName "cfcomponent" := ⟨by decide, by decide⟩

theorem isTagName_cffunction : IsTagName "cffunction" := ⟨by decide, by decide⟩

theorem isTagName_cfargument : IsTagName "cfargument" := ⟨by decide, by decide⟩

theorem WritesFunction.lines {f : PublicFunction} {lines : List (List Char)} (h : WritesFunction f lines) :
    List.Forall₂ IsKeptAs f.events lines := by
  obtain ⟨opening, arguments, ho, ha, rfl⟩ := h
  refine .cons ⟨isLineOf_opening isTagName_cffunction ho, isKept_opening isTagName_cffunction (by decide) ho⟩ ?_
  refine List.rel_append ?_ (.cons ?_ .nil)
  · rw [List.forall₂_map_left_iff]
    refine ha.imp fun a line h => ?_
    exact ⟨isLineOf_opening isTagName_cfargument h, isKept_opening isTagName_cfargument (by decide) h⟩
  · exact ⟨isLineOf_closing isTagName_cffunction, isKept_closing isTagName_cffunction (by decide)⟩

theorem lines_functions {functions : List PublicFunction} {lines : List (List (List Char))}
    (h : List.Forall₂ WritesFunction functions lines) :
    List.Forall₂ IsKeptAs (functions.flatMap PublicFunction.events) lines.flatten := by
  induction h with
  | nil => exact .nil
  | cons hf h ih => exact List.rel_append hf.lines ih

theorem WritesComponent.lines {r : ResourceComponent} {lines : List (List Char)} (h : WritesComponent r lines) :
    List.Forall₂ IsKeptAs r.events lines := by
  obtain ⟨opening, functions, ho, hf, rfl⟩ := h
  refine .cons ⟨isLineOf_opening isTagName_cfcomponent ho, isKept_opening isTagName_cfcomponent (by decide) ho⟩ ?_
  refine List.rel_append (lines_functions hf) (.cons ?_ .nil)
  exact ⟨isLineOf_closing isTagName_cfcomponent, isKept_closing isTagName_cfcomponent (by decide)⟩

theorem isKept_of_lines {es : List Event} {lines : List (List Char)} (h : List.Forall₂ IsKeptAs es lines) :
    ∀ line ∈ lines, IsKept line := by
  induction h with
  | nil => intro line hl; cases hl
  | cons he h ih =>
    intro line hl
    rcases List.mem_cons.1 hl with rfl | hl
    · exact he.2
    · exact ih line hl

namespace ResourceComponent

variable {r : ResourceComponent} {source : String}

/-- The declaration lines of a source are the tags of its component, and are read as its events. -/
theorem IsDeclaredIn.events (h : r.IsDeclaredIn source) :
    Markup.events (declarations source) = (r.events, none) := by
  obtain ⟨tags, all, hw, hi, hs⟩ := h
  unfold declarations
  rw [hs, declarationLines_intercalate hi (isKept_of_lines hw.lines)]
  exact events_lines (hw.lines.imp fun e line h => h.1)

/-! ## Parsing -/

theorem spells_arguments (arguments : List Argument) :
    Spells (regular (arguments.map Argument.event)) (arguments.map Argument.element) := by
  induction arguments with
  | nil => exact .nil
  | cons a arguments ih => exact .empty ih

theorem spells_functions (functions : List PublicFunction) :
    Spells (regular (functions.flatMap PublicFunction.events)) (functions.map PublicFunction.element) := by
  induction functions with
  | nil => exact .nil
  | cons f functions ih =>
    have hf : regular f.events = .opening "cffunction" (.ofList f.entries) ::
        (regular (f.arguments.map Argument.event) ++ [.closing "cffunction"]) := regular_nested rfl _ _
    rw [List.flatMap_cons, regular_append, hf, List.cons_append, List.append_assoc, List.singleton_append]
    exact .nested (spells_arguments f.arguments) ih

theorem spells_events (r : ResourceComponent) : Spells (regular r.events) [r.element] := by
  have hr : regular r.events = .opening "cfcomponent" (.ofList r.entries) ::
      (regular (r.functions.flatMap PublicFunction.events) ++ [.closing "cfcomponent"]) := regular_nested rfl _ _
  rw [hr]
  exact .nested (spells_functions r.functions) .nil

/-- A source is parsed into the element of its component. -/
theorem IsDeclaredIn.parse (h : r.IsDeclaredIn source) : Markup.parse (declarations source) = .ok [r.element] := by
  have hnone : (Markup.events (declarations source)).2 = none := by rw [h.events]
  rw [parse_eq_of_events hnone, h.events, (spells_events r).ofEvents isRegular_of_mem_regular]
  rfl

end ResourceComponent

end ResourceClient
