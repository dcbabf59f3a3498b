/-
Nesting: parsing accepts exactly the well-nested sequences of tags. A forest is spelled by the events of
its elements in document order; the brackets of a sequence are its opening and closing tags alone, and
they are balanced when each closing bracket bears the name of the opening one it pairs with. A sequence
is the spelling of a forest iff its brackets are balanced, the forest is then the only one, and otherwise
the first closing bracket that does not fit, or the innermost element left open, decides the fault.

The proof is an invariant of the machine that takes the events: what it has read so far spells the roots
and, for each open element, its children so far (`Grown`).
-/
import ResourceClient.Markup.Forest
import Mathlib.Data.List.Basic

namespace ResourceClient.Markup

/-! ## Words of tags -/

/-- What an event counts as. An argument declaration has no inside: its opening tag counts as all of it,
and its closing tag as nothing. -/
def Event.regular? : Event → Option Event
  | .opening name attributes =>
    some (if isVoid name then .empty name attributes else .opening name attributes)
  | .empty name attributes => some (.empty name attributes)
  | .closing name => if isVoid name then none else some (.closing name)

def regular (es : List Event) : List Event :=
  es.filterMap Event.regular?

theorem regular_append (a b : List Event) : regular (a ++ b) = regular a ++ regular b :=
  List.filterMap_append

/-- The events of an element with an inside count as themselves around those of the inside. -/
theorem regular_nested {name : String} (h : isVoid name = false) (attributes : Attributes) (inner : List Event) :
    regular (.opening name attributes :: (inner ++ [.closing name])) =
      .opening name attributes :: (regular inner ++ [.closing name]) := by
  have ho : regular [.opening name attributes] = [.opening name attributes] := by
    simp [regular, Event.regular?, h]
  have hc : regular [.closing name] = [.closing name] := by simp [regular, Event.regular?, h]
  rw [← List.singleton_append, regular_append, regular_append, ho, hc]
  rfl

/-- One end of an element that has an inside. -/
inductive Bracket
  | opening (name : String)
  | closing (name : String)
  deriving DecidableEq, Repr

def Event.bracket? : Event → Option Bracket
  | .opening name _ => some (.opening name)
  | .empty _ _ => none
  | .closing name => some (.closing name)

def brackets (es : List Event) : List Bracket :=
  es.filterMap Event.bracket?

/-- Words in which each closing bracket has the name of the opening bracket it pairs with. -/
inductive Balanced : List Bracket → Prop
  | nil : Balanced []
  | nested {name : String} {inner rest : List Bracket} :
      Balanced inner → Balanced rest → Balanced (.opening name :: (inner ++ .closing name :: rest))

/-- Words in which every closing bracket fits and that leave the elements of these names open, the
innermost first. -/
inductive Leaves : List Bracket → List String → Prop
  | balanced {word : List Bracket} : Balanced word → Leaves word []
  | opening {word inner : List Bracket} {name : String} {names : List String} :
      Leaves word names → Balanced inner → Leaves (word ++ .opening name :: inner) (name :: names)

/-- The sequences of events that write a forest down: an element without children in one event or in
two, any other in the event that opens it, the events of its children and the event that closes it. -/
inductive Spells : List Event → Forest → Prop
  | nil : Spells [] []
  | empty {name : String} {attributes : Attributes} {es : List Event} {forest : Forest} :
      Spells es forest → Spells (.empty name attributes :: es) (⟨name, attributes, []⟩ :: forest)
  | nested {name : String} {attributes : Attributes} {inner es : List Event} {children forest : Forest} :
      Spells inner children → Spells es forest →
      Spells (.opening name attributes :: (inner ++ .closing name :: es)) (⟨name, attributes, children⟩ :: forest)

theorem Spells.append {es es' : List Event} {forest forest' : Forest} (h : Spells es forest)
    (h' : Spells es' forest') : Spells (es ++ es') (forest ++ forest') := by
  induction h with
  | nil => exact h'
  | empty _ ih => exact .empty ih
  | nested hc _ _ ih =>
    simp only [List.cons_append, List.append_assoc]
    exact .nested hc ih

@[simp] theorem brackets_append (a b : List Event) : brackets (a ++ b) = brackets a ++ brackets b :=
  List.filterMap_append

theorem Spells.balanced {es : List Event} {forest : Forest} (h : Spells es forest) : Balanced (brackets es) := by
  induction h with
  | nil => exact .nil
  | empty _ ih => exact ih
  | @nested name attributes inner es _ _ _ _ ihc ih =>
    have h : brackets (.opening name attributes :: (inner ++ .closing name :: es)) =
        .opening name :: (brackets inner ++ .closing name :: brackets es) := by
      simp [brackets, Event.bracket?]
    rw [h]
    exact .nested ihc ih

/-- A sequence without brackets spells elements without children. -/
theorem exists_spells_of_brackets_nil {es : List Event} (h : brackets es = []) : ∃ forest, Spells es forest := by
  induction es with
  | nil => exact ⟨[], .nil⟩
  | cons e es ih =>
    cases e with
    | opening name attributes => simp [brackets, Event.bracket?] at h
    | closing name => simp [brackets, Event.bracket?] at h
    | empty name attributes =>
      obtain ⟨forest, hf⟩ := ih (by simpa [brackets, Event.bracket?] using h)
      exact ⟨_, .empty hf⟩

/-- A sequence with a bracket is cut at its first bracket. -/
theorem exists_of_brackets_cons {es : List Event} {b : Bracket} {word : List Bracket}
    (h : brackets es = b :: word) :
    ∃ before e after, es = before ++ e :: after ∧ brackets before = [] ∧ e.bracket? = some b ∧
      brackets after = word := by
  obtain ⟨before, e, after, rfl, hb, he, ha⟩ := List.filterMap_eq_cons_iff.1 h
  exact ⟨before, e, after, rfl, by simpa [brackets, List.filterMap_eq_nil_iff] using hb, he, ha⟩

theorem Event.of_bracket?_opening {e : Event} {name : String} (h : e.bracket? = some (.opening name)) :
    ∃ attributes, e = .opening name attributes := by
  cases e with
  | opening n attributes => cases h; exact ⟨attributes, rfl⟩
  | empty n attributes => cases h
  | closing n => cases h

theorem Event.of_bracket?_closing {e : Event} {name : String} (h : e.bracket? = some (.closing name)) :
    e = .closing name := by
  cases e with
  | opening n attributes => cases h
  | empty n attributes => cases h
  | closing n => cases h; rfl

/-- A sequence with balanced brackets spells a forest. -/
theorem Balanced.exists_spells {word : List Bracket} (h : Balanced word) :
    ∀ {es : List Event}, brackets es = word → ∃ forest, Spells es forest := by
  induction h with
  | nil => exact exists_spells_of_brackets_nil
  | @nested name inner rest _ _ ihi ihr =>
    intro es hes
    obtain ⟨before, e, after, rfl, hb, he, ha⟩ := exists_of_brackets_cons hes
    obtain ⟨attributes, rfl⟩ := Event.of_bracket?_opening he
    -- the word is cut where the bracket closes, and with it the events
    obtain ⟨l1, l2, rfl, h1, h2⟩ := List.filterMap_eq_append_iff.1 ha
    obtain ⟨before', e', after', rfl, hb', he', ha'⟩ := exists_of_brackets_cons h2
    obtain rfl := Event.of_bracket?_closing he'
    obtain ⟨f1, hf1⟩ := exists_spells_of_brackets_nil hb
    -- the events before the closing bracket all stand inside the element
    have hi : brackets (l1 ++ before') = inner := by
      rw [brackets_append, hb', List.append_nil]
      exact h1
    obtain ⟨f2, hf2⟩ := ihi hi
    obtain ⟨f3, hf3⟩ := ihr ha'
    refine ⟨f1 ++ ⟨name, attributes, f2⟩ :: f3, hf1.append ?_⟩
    rw [← List.append_assoc]
    exact .nested hf2 hf3

/-! ## The machine on regular events -/

/-- An event that counts as itself. -/
def Event.IsRegular (e : Event) : Prop := e.regular? = some e

theorem Event.isRegular_of_regular? {e e' : Event} (h : e.regular? = some e') : e'.IsRegular := by
  cases e with
  | opening name attributes =>
    cases h
    by_cases hv : isVoid name = true <;> simp [IsRegular, regular?, hv]
  | empty name attributes => cases h; rfl
  | closing name =>
    by_cases hv : isVoid name = true
    · simp [regular?, hv] at h
    · simp only [regular?, hv] at h
      cases h
      simp [IsRegular, regular?, hv]

theorem isRegular_of_mem_regular {es : List Event} : ∀ e ∈ regular es, e.IsRegular := by
  intro e he
  obtain ⟨e', -, h⟩ := List.mem_filterMap.1 he
  exact Event.isRegular_of_regular? h

theorem Event.IsRegular.not_isVoid_opening {name : String} {attributes : Attributes}
    (h : (Event.opening name attributes).IsRegular) : isVoid name = false := by
  cases hv : isVoid name
  · rfl
  · simp [IsRegular, regular?, hv] at h

theorem Event.IsRegular.not_isVoid_closing {name : String} (h : (Event.closing name).IsRegular) :
    isVoid name = false := by
  cases hv : isVoid name
  · rfl
  · simp [IsRegular, regular?, hv] at h

@[simp] theorem feedAll_nil (g : Growth) : feedAll g [] = .ok g := rfl

theorem feedAll_cons (g : Growth) (e : Event) (es : List Event) :
    feedAll g (e :: es) = (g.feed e).bind (feedAll · es) := rfl

theorem feedAll_append (g : Growth) (es es' : List Event) :
    feedAll g (es ++ es') = (feedAll g es).bind (feedAll · es') := by
  unfold feedAll
  rw [List.foldlM_append]
  rfl

/-- An event has the effect of what it counts as. -/
theorem feed_regular (g : Growth) (e : Event) : feedAll g e.regular?.toList = g.feed e := by
  cases e with
  | opening name attributes =>
    by_cases hv : isVoid name = true <;>
      simp [Event.regular?, hv, feedAll_cons, Growth.feed, Except.bind]
  | empty name attributes => simp [Event.regular?, feedAll_cons, Growth.feed, Except.bind]
  | closing name =>
    by_cases hv : isVoid name = true
    · simp [Event.regular?, hv, Growth.feed]
    · simp only [Event.regular?, hv]
      rw [if_neg (by simp), Option.toList_some, feedAll_cons]
      cases g.feed (.closing name) <;> rfl

theorem feedAll_regular (es : List Event) : ∀ g : Growth, feedAll g (regular es) = feedAll g es := by
  induction es with
  | nil => intro g; rfl
  | cons e es ih =>
    intro g
    have h : regular (e :: es) = e.regular?.toList ++ regular es := by
      unfold regular
      rw [List.filterMap_cons]
      cases e.regular? <;> rfl
    rw [h, feedAll_append, feed_regular, feedAll_cons]
    simp only [ih]

theorem ofEvents_regular (es : List Event) : ofEvents (regular es) = ofEvents es := by
  unfold ofEvents
  rw [feedAll_regular]

/-! ## Reading a spelling -/

/-- Adds complete elements, in order. -/
def Growth.attachAll (g : Growth) (forest : Forest) : Growth :=
  forest.foldl Growth.attach g

theorem Growth.attachAll_roots (roots forest : Forest) :
    (⟨[], roots⟩ : Growth).attachAll forest = ⟨[], roots ++ forest⟩ := by
  induction forest generalizing roots with
  | nil => simp [attachAll]
  | cons e forest ih =>
    have h : (⟨[], roots⟩ : Growth).attachAll (e :: forest) = (⟨[], roots ++ [e]⟩ : Growth).attachAll forest := rfl
    rw [h, ih, List.append_assoc, List.singleton_append]

theorem Growth.attachAll_stack (top : OpenElement) (below : List OpenElement) (roots forest : Forest) :
    (⟨top :: below, roots⟩ : Growth).attachAll forest =
      ⟨{ top with children := top.children ++ forest } :: below, roots⟩ := by
  induction forest generalizing top with
  | nil => simp [attachAll]
  | cons e forest ih =>
    have h : (⟨top :: below, roots⟩ : Growth).attachAll (e :: forest) =
        (⟨{ top with children := top.children ++ [e] } :: below, roots⟩ : Growth).attachAll forest := rfl
    rw [h, ih, List.append_assoc, List.singleton_append]

/-- Complete elements leave the same elements open. -/
theorem Growth.attachAll_names (g : Growth) (forest : Forest) :
    (g.attachAll forest).stack.map (·.name) = g.stack.map (·.name) := by
  obtain ⟨stack, roots⟩ := g
  cases stack with
  | nil => rw [attachAll_roots]
  | cons top below => rw [attachAll_stack]; rfl

/-- Reading the spelling of a forest adds just this forest, whatever is open. -/
theorem Spells.feedAll {es : List Event} {forest : Forest} (h : Spells es forest) :
    ∀ g : Growth, (∀ e ∈ es, e.IsRegular) → Markup.feedAll g es = .ok (g.attachAll forest) := by
  induction h with
  | nil => intro g _; rfl
  | empty _ ih =>
    intro g hr
    rw [feedAll_cons]
    exact ih _ fun e he => hr e (List.mem_cons_of_mem _ he)
  | @nested name attributes inner es children forest _ _ ihc ih =>
    intro g hr
    have ho := (hr _ List.mem_cons_self).not_isVoid_opening
    have hfeed : g.feed (.opening name attributes) = .ok { g with stack := ⟨name, attributes, []⟩ :: g.stack } := by
      simp [Growth.feed, ho]
    -- the children go to the element that has just been opened, and nowhere else
    rw [feedAll_cons, hfeed, Except.bind, feedAll_append,
      ihc _ fun e he => hr e (by simp [he]), Growth.attachAll_stack, Except.bind, feedAll_cons]
    have hclose : Growth.feed ⟨⟨name, attributes, [] ++ children⟩ :: g.stack, g.roots⟩ (.closing name) =
        .ok (g.attach ⟨name, attributes, children⟩) := by
      simp [Growth.feed, ho, OpenElement.close]
    rw [hclose]
    exact ih _ fun e he => hr e (by simp [he])

theorem Spells.ofEvents {es : List Event} {forest : Forest} (h : Spells es forest)
    (hr : ∀ e ∈ es, e.IsRegular) : Markup.ofEvents es = .ok forest := by
  unfold Markup.ofEvents
  rw [h.feedAll {} hr, Growth.attachAll_roots]
  rfl

/-- A sequence spells one forest at most. -/
theorem Spells.unique {es : List Event} {forest other : Forest} (h : Spells es forest) (h' : Spells es other)
    (hr : ∀ e ∈ es, e.IsRegular) : forest = other := by
  have := (h.ofEvents hr).symm.trans (h'.ofEvents hr)
  cases this
  rfl

/-! ## What has been read -/

/-- The invariant of the machine: the events read so far spell the roots, and after the event that
opened it, for each open element its children so far. -/
inductive Grown : List Event → Growth → Prop
  | roots {es : List Event} {roots : Forest} : Spells es roots → Grown es ⟨[], roots⟩
  | opening {es inner : List Event} {g : Growth} {name : String} {attributes : Attributes} {children : Forest} :
      Grown es g → Spells inner children →
      Grown (es ++ .opening name attributes :: inner) ⟨⟨name, attributes, children⟩ :: g.stack, g.roots⟩

theorem Grown.attach {es inner : List Event} {g : Growth} {e : Element} (h : Grown es g)
    (hi : Spells inner [e]) : Grown (es ++ inner) (g.attach e) := by
  cases h with
  | roots h => exact .roots (h.append hi)
  | opening h hc =>
    rw [List.append_assoc, List.cons_append]
    exact .opening h (hc.append hi)

/-- One event keeps the invariant. -/
theorem Grown.feed {es : List Event} {g g' : Growth} {e : Event} (h : Grown es g) (hr : e.IsRegular)
    (hf : g.feed e = .ok g') : Grown (es ++ [e]) g' := by
  cases e with
  | opening name attributes =>
    simp only [Growth.feed, hr.not_isVoid_opening] at hf
    cases hf
    exact .opening h .nil
  | empty name attributes =>
    cases hf
    exact h.attach (.empty .nil)
  | closing name =>
    simp only [Growth.feed, hr.not_isVoid_closing] at hf
    cases h with
    | roots h => cases hf
    | @opening es inner g top attributes children h hc =>
      by_cases hn : top = name
      · subst hn
        simp only [Bool.false_eq_true, ↓reduceIte] at hf
        cases hf
        -- the events since the opening one spell the whole element now
        rw [List.append_assoc, List.cons_append]
        exact h.attach (.nested hc .nil)
      · simp [hn] at hf

/-- A run keeps the invariant. -/
theorem Grown.feedAll {es more : List Event} {g g' : Growth} (h : Grown es g) (hr : ∀ e ∈ more, e.IsRegular)
    (hf : Markup.feedAll g more = .ok g') : Grown (es ++ more) g' := by
  induction more generalizing es g with
  | nil => cases hf; simpa using h
  | cons e more ih =>
    rw [feedAll_cons] at hf
    rcases hg : g.feed e with fault | g1 <;> rw [hg] at hf
    · cases hf
    · have h1 := h.feed (hr e List.mem_cons_self) hg
      have := ih h1 (fun e he => hr e (List.mem_cons_of_mem _ he)) hf
      simpa using this

theorem grown_of_feedAll {es : List Event} {g : Growth} (hr : ∀ e ∈ es, e.IsRegular)
    (h : Markup.feedAll {} es = .ok g) : Grown es g := by
  have := (Grown.roots .nil).feedAll hr h
  simpa using this

theorem Grown.leaves {es : List Event} {g : Growth} (h : Grown es g) :
    Leaves (brackets es) (g.stack.map (·.name)) := by
  induction h with
  | roots h => exact .balanced h.balanced
  | @opening es inner g name attributes children _ hc ih =>
    rw [brackets_append]
    exact .opening ih hc.balanced

/-- A word that leaves elements open is read without a fault and leaves just these open. -/
theorem Leaves.feedAll {word : List Bracket} {names : List String} (h : Leaves word names) :
    ∀ {es : List Event}, brackets es = word → (∀ e ∈ es, e.IsRegular) →
      ∃ g, Markup.feedAll {} es = .ok g ∧ g.stack.map (·.name) = names := by
  induction h with
  | balanced h =>
    intro es hes hr
    obtain ⟨forest, hf⟩ := h.exists_spells hes
    exact ⟨_, hf.feedAll {} hr, by rw [Growth.attachAll_names]; rfl⟩
  | @opening word inner name names _ hb ih =>
    intro es hes hr
    obtain ⟨l1, l2, rfl, h1, h2⟩ := List.filterMap_eq_append_iff.1 hes
    obtain ⟨before, e, after, rfl, hn, he, ha⟩ := exists_of_brackets_cons h2
    obtain ⟨attributes, rfl⟩ := Event.of_bracket?_opening he
    -- up to the last element left open by induction, and from there on inside of it
    have hw : brackets (l1 ++ before) = word := by
      rw [brackets_append, hn, List.append_nil]
      exact h1
    obtain ⟨g, hg, hnames⟩ := ih hw fun e he =>
      hr e (by simp only [List.mem_append, List.mem_cons] at he ⊢; tauto)
    obtain ⟨forest, hf⟩ := hb.exists_spells ha
    have ho := (hr (.opening name attributes) (by simp)).not_isVoid_opening
    refine ⟨Growth.attachAll ⟨⟨name, attributes, []⟩ :: g.stack, g.roots⟩ forest, ?_, ?_⟩
    · rw [← List.append_assoc, feedAll_append, hg, Except.bind, feedAll_cons]
      have hfeed : g.feed (.opening name attributes) = .ok ⟨⟨name, attributes, []⟩ :: g.stack, g.roots⟩ := by
        simp [Growth.feed, ho]
      rw [hfeed]
      exact hf.feedAll _ fun e he => hr e (by simp [he])
    · rw [Growth.attachAll_names, List.map_cons, hnames]

/-! ## Faults -/

/-- The one event that can be refused closes an element: nothing is open, or the innermost open element
has another name. -/
theorem Growth.feed_eq_error {g : Growth} {e : Event} {fault : NestingFault} (h : g.feed e = .error fault) :
    (∃ name, e = .closing name ∧ g.stack = [] ∧ fault = .unexpectedClose name) ∨
    (∃ name top below, e = .closing name ∧ g.stack = top :: below ∧ top.name ≠ name ∧
      fault = .mismatched top.name name) := by
  cases e with
  | opening name attributes =>
    simp only [feed] at h
    split at h <;> cases h
  | empty name attributes => cases h
  | closing name =>
    simp only [feed] at h
    split at h
    · cases h
    · split at h
      · rename_i hs
        cases h
        exact .inl ⟨name, rfl, hs, rfl⟩
      · rename_i top below hs
        split at h
        · cases h
        · rename_i hn
          cases h
          exact .inr ⟨name, top, below, rfl, hs, hn, rfl⟩

/-- A run that is refused is read up to the event that is. -/
theorem feedAll_eq_error {es : List Event} {g : Growth} {fault : NestingFault}
    (h : feedAll g es = .error fault) :
    ∃ before e after g', es = before ++ e :: after ∧ feedAll g before = .ok g' ∧ g'.feed e = .error fault := by
  induction es generalizing g with
  | nil => cases h
  | cons e es ih =>
    rw [feedAll_cons] at h
    rcases hg : g.feed e with fault' | g1 <;> rw [hg] at h
    · cases h
      exact ⟨[], e, es, g, rfl, rfl, hg⟩
    · obtain ⟨before, e', after, g', rfl, hb, he⟩ := ih h
      refine ⟨e :: before, e', after, g', rfl, ?_, he⟩
      rw [feedAll_cons, hg]
      exact hb

/-- A run stops at the first event that is refused. -/
theorem feedAll_of_feed_eq_error {before after : List Event} {e : Event} {g g' : Growth} {fault : NestingFault}
    (hb : feedAll g before = .ok g') (he : g'.feed e = .error fault) :
    feedAll g (before ++ e :: after) = .error fault := by
  rw [feedAll_append, hb, Except.bind, feedAll_cons, he]
  rfl

/-- A closing bracket of a sequence is a closing event of it. -/
theorem exists_cut_at_closing {es : List Event} {before after : List Bracket} {name : String}
    (h : brackets es = before ++ .closing name :: after) :
    ∃ es1 es2, es = es1 ++ .closing name :: es2 ∧ brackets es1 = before := by
  obtain ⟨l1, l2, rfl, h1, h2⟩ := List.filterMap_eq_append_iff.1 h
  obtain ⟨between, e, rest, rfl, hn, he, -⟩ := exists_of_brackets_cons h2
  obtain rfl := Event.of_bracket?_closing he
  refine ⟨l1 ++ between, rest, by simp, ?_⟩
  rw [brackets_append, hn]
  simpa [brackets] using h1

section

variable {es : List Event}

theorem ofEvents_eq_error {fault : NestingFault} (h : ofEvents es = .error fault) :
    feedAll {} es = .error fault ∨ ∃ g, feedAll {} es = .ok g ∧ g.finish = .error fault := by
  unfold ofEvents at h
  rcases hg : feedAll {} es with fault' | g <;> rw [hg] at h
  · cases h; exact .inl rfl
  · exact .inr ⟨g, rfl, h⟩

theorem Growth.finish_eq_error {g : Growth} {fault : NestingFault} (h : g.finish = .error fault) :
    ∃ top below, g.stack = top :: below ∧ fault = .unclosed top.name := by
  unfold finish at h
  split at h
  · cases h
  · rename_i top below hs
    cases h
    exact ⟨top, below, hs, rfl⟩

variable (hr : ∀ e ∈ es, e.IsRegular)

include hr

/-- A sequence of regular events is taken for the forest it spells, and for no other. -/
theorem ofEvents_eq_ok_iff {forest : Forest} : ofEvents es = .ok forest ↔ Spells es forest := by
  refine ⟨fun h => ?_, fun h => h.ofEvents hr⟩
  unfold ofEvents at h
  rcases hg : feedAll {} es with fault | g <;> rw [hg] at h
  · cases h
  · simp only [Except.bind, Growth.finish] at h
    split at h
    · rename_i hs
      cases h
      have hgrown := grown_of_feedAll hr hg
      obtain ⟨stack, roots⟩ := g
      -- with nothing open, all that was read spells the roots
      cases hgrown with
      | roots h => exact h
      | opening _ _ => cases hs
    · cases h

theorem exists_ofEvents_iff : (∃ forest, ofEvents es = .ok forest) ↔ Balanced (brackets es) := by
  constructor
  · rintro ⟨forest, h⟩
    exact ((ofEvents_eq_ok_iff hr).1 h).balanced
  · intro h
    obtain ⟨forest, hf⟩ := h.exists_spells rfl
    exact ⟨forest, hf.ofEvents hr⟩

/-- Where a run is refused, the brackets before leave open what is on the stack. -/
theorem exists_refused {fault : NestingFault} (h : feedAll {} es = .error fault) :
    ∃ (before after : List Bracket) (g : Growth) (name : String),
      brackets es = before ++ .closing name :: after ∧ Leaves before (g.stack.map (·.name)) ∧
      g.feed (.closing name) = .error fault := by
  obtain ⟨before, e, after, g, rfl, hb, he⟩ := feedAll_eq_error h
  have hl := (grown_of_feedAll (fun e he => hr e (by simp [he])) hb).leaves
  have : ∃ name, e = .closing name := by
    rcases Growth.feed_eq_error he with ⟨name, rfl, -⟩ | ⟨name, _, _, rfl, -⟩ <;> exact ⟨name, rfl⟩
  obtain ⟨name, rfl⟩ := this
  exact ⟨brackets before, brackets after, g, name, by simp [brackets, Event.bracket?], hl, he⟩

/-- A closing bracket that meets these open elements is refused if the machine refuses it there. -/
theorem ofEvents_refused {before after : List Bracket} {names : List String} {name : String} {fault : NestingFault}
    (h : brackets es = before ++ .closing name :: after) (hl : Leaves before names)
    (hf : ∀ g : Growth, g.stack.map (·.name) = names → g.feed (.closing name) = .error fault) :
    ofEvents es = .error fault := by
  obtain ⟨es1, es2, rfl, h1⟩ := exists_cut_at_closing h
  obtain ⟨g, hg, hn⟩ := hl.feedAll h1 fun e he => hr e (by simp [he])
  unfold ofEvents
  rw [feedAll_of_feed_eq_error hg (hf g hn)]
  rfl

theorem ofEvents_mismatched_iff {expected found : String} :
    ofEvents es = .error (.mismatched expected found) ↔
      ∃ before after names, brackets es = before ++ .closing found :: after ∧
        Leaves before (expected :: names) ∧ expected ≠ found := by
  constructor
  · intro h
    rcases ofEvents_eq_error h with h | ⟨g, -, h⟩
    · -- refused on the way: the stack there is what the brackets before leave open
      obtain ⟨before, after, g, name, hes, hl, hf⟩ := exists_refused hr h
      rcases Growth.feed_eq_error hf with ⟨_, _, _, h⟩ | ⟨_, top, below, he, hs, hne, h⟩
      · cases h
      · cases h; cases he
        rw [hs] at hl
        exact ⟨before, after, _, hes, hl, hne⟩
    · obtain ⟨top, below, -, h⟩ := Growth.finish_eq_error h
      cases h
  · rintro ⟨before, after, names, hes, hl, hne⟩
    refine ofEvents_refused hr hes hl fun g hn => ?_
    obtain ⟨es1, es2, rfl, -⟩ := exists_cut_at_closing hes
    have hv := (hr (.closing found) (by simp)).not_isVoid_closing
    obtain ⟨top, below, hs, rfl, -⟩ := List.map_eq_cons_iff.1 hn
    simp [Growth.feed, hv, hs, hne]

theorem ofEvents_unexpectedClose_iff {name : String} :
    ofEvents es = .error (.unexpectedClose name) ↔
      ∃ before after, brackets es = before ++ .closing name :: after ∧ Leaves before [] := by
  constructor
  · intro h
    rcases ofEvents_eq_error h with h | ⟨g, -, h⟩
    · obtain ⟨before, after, g, name, hes, hl, hf⟩ := exists_refused hr h
      rcases Growth.feed_eq_error hf with ⟨_, he, hs, h⟩ | ⟨_, _, _, _, _, _, h⟩
      · cases h; cases he
        rw [hs] at hl
        exact ⟨before, after, hes, hl⟩
      · cases h
    · obtain ⟨top, below, -, h⟩ := Growth.finish_eq_error h
      cases h
  · rintro ⟨before, after, hes, hl⟩
    refine ofEvents_refused hr hes hl fun g hn => ?_
    obtain ⟨es1, es2, rfl, -⟩ := exists_cut_at_closing hes
    have hv := (hr (.closing name) (by simp)).not_isVoid_closing
    simp [Growth.feed, hv, List.map_eq_nil_iff.1 hn]

theorem ofEvents_unclosed_iff {name : String} :
    ofEvents es = .error (.unclosed name) ↔ ∃ names, Leaves (brackets es) (name :: names) := by
  constructor
  · intro h
    rcases ofEvents_eq_error h with h | ⟨g, hg, h⟩
    · obtain ⟨_, _, g, _, _, _, hf⟩ := exists_refused hr h
      rcases Growth.feed_eq_error hf with ⟨_, _, _, h⟩ | ⟨_, _, _, _, _, _, h⟩ <;> cases h
    · obtain ⟨top, below, hs, h⟩ := Growth.finish_eq_error h
      cases h
      have hl := (grown_of_feedAll hr hg).leaves
      rw [hs] at hl
      exact ⟨_, hl⟩
  · rintro ⟨names, hl⟩
    obtain ⟨g, hg, hn⟩ := hl.feedAll rfl hr
    obtain ⟨top, below, hs, rfl, -⟩ := List.map_eq_cons_iff.1 hn
    unfold ofEvents
    rw [hg]
    simp [Except.bind, Growth.finish, hs]

end

/-! ## Parsing -/

/-- Markup without a fault of its own is parsed as its events are taken. -/
theorem parse_eq_of_events {markup : String} (h : (events markup).2 = none) :
    parse markup = (ofEvents (regular (events markup).1)).mapError .nesting := by
  rw [ofEvents_regular]
  unfold parse ofEvents
  rw [h]
  cases feedAll {} (events markup).1 <;> rfl

/-- Markup whose tags and attributes can all be read is parsed iff its brackets are balanced, and then
into the one forest that its events spell. Otherwise the first closing bracket that does not fit is the
fault, by the innermost open element or by there being none; when all fit, the innermost element left
open is. -/
theorem parse_wellNested (markup : String) (h : (events markup).2 = none) :
    let tags := regular (events markup).1
    ((∃ forest, parse markup = .ok forest) ↔ Balanced (brackets tags)) ∧
    (∀ forest, parse markup = .ok forest → Spells tags forest ∧ ∀ other, Spells tags other → other = forest) ∧
    (∀ expected found, parse markup = .error (.nesting (.mismatched expected found)) ↔
      ∃ before after names, brackets tags = before ++ .closing found :: after ∧
        Leaves before (expected :: names) ∧ expected ≠ found) ∧
    (∀ name, parse markup = .error (.nesting (.unexpectedClose name)) ↔
      ∃ before after, brackets tags = before ++ .closing name :: after ∧ Leaves before []) ∧
    (∀ name, parse markup = .error (.nesting (.unclosed name)) ↔
      ∃ names, Leaves (brackets tags) (name :: names)) ∧
    (∀ error, parse markup = .error error → ∃ fault, error = .nesting fault) := by
  intro tags
  have hr : ∀ e ∈ tags, e.IsRegular := isRegular_of_mem_regular
  have hok : ∀ forest, parse markup = .ok forest ↔ ofEvents tags = .ok forest := by
    intro forest
    rw [parse_eq_of_events h]
    cases ofEvents tags <;> simp [Except.mapError]
  have herror : ∀ fault, parse markup = .error (.nesting fault) ↔ ofEvents tags = .error fault := by
    intro fault
    rw [parse_eq_of_events h]
    cases ofEvents tags <;> simp [Except.mapError]
  refine ⟨?_, fun forest hf => ?_, fun expected found => ?_, fun name => ?_, fun name => ?_, fun error he => ?_⟩
  · simp only [hok]
    exact exists_ofEvents_iff hr
  · have hs := (ofEvents_eq_ok_iff hr).1 ((hok forest).1 hf)
    exact ⟨hs, fun other ho => ho.unique hs hr⟩
  · rw [herror]; exact ofEvents_mismatched_iff hr
  · rw [herror]; exact ofEvents_unexpectedClose_iff hr
  · rw [herror]; exact ofEvents_unclosed_iff hr
  · rw [parse_eq_of_events h] at he
    rcases hf : ofEvents tags with fault | forest <;> rw [hf] at he <;> cases he
    exact ⟨fault, rfl⟩

/-- An argument declaration inside and a missing end: the innermost element left open is named. -/
theorem parse_wellNested_unclosed :
    (events "<A><cfArgument x=1><B></B></cfargument>").2 = none ∧
      parse "<A><cfArgument x=1><B></B></cfargument>" = .error (.nesting (.unclosed "a")) := by
  have h : (events "<A><cfArgument x=1><B></B></cfargument>").2 = none := by decide +kernel
  refine ⟨h, ((parse_wellNested _ h).2.2.2.2.1 "a").2 ⟨[], ?_⟩⟩
  have hw : brackets (regular (events "<A><cfArgument x=1><B></B></cfargument>").1) =
      [.opening "a", .opening "b", .closing "b"] := by decide +kernel
  rw [hw]
  exact .opening (.balanced .nil) (.nested .nil .nil)

end ResourceClient.Markup
