/-
Values whose letter case is free. Forests are built from events without a look at the attributes, so that events that
are the same but for such values give forests that are, or the same refusal.
-/
import ResourceClient.Markup.Forest
import ResourceClient.Proofs.Markup.Nesting
import ResourceClient.Text.Fold

namespace ResourceClient.Markup

open Text

/-! ## Attributes -/

/-- The attributes whose values are in any letter case: three of any element, and the name of a function, which is
a verb. -/
def isFreeKey (element key : String) : Bool :=
  key == "access" || key == "type" || key == "required" || (element == "cffunction" && key == "name")

/-- A value, in small letters if its case is free. -/
def foldFree (element key value : String) : String :=
  if isFreeKey element key then fold value else value

namespace Attributes

variable {element : String}

/-- Attributes with their free values in small letters. -/
def folded (element : String) (a : Attributes) : Attributes where
  entries := a.entries.map fun e => (e.1, foldFree element e.1 e.2)
  sorted := List.pairwise_map.2 a.sorted

theorem get?_folded (a : Attributes) (key : String) :
    (a.folded element).get? key = (a.get? key).map (foldFree element key) := by
  obtain ⟨entries, sorted⟩ := a
  show (entries.map _).lookup key = (entries.lookup key).map _
  clear sorted
  induction entries with
  | nil => rfl
  | cons e entries ih =>
    obtain ⟨k, v⟩ := e
    rw [List.map_cons, lookup_entry, lookup_entry, ih]
    split
    · rename_i hk
      rw [hk]
      rfl
    · rfl

theorem folded_insert (a : Attributes) (key value : String) :
    (a.insert key value).folded element = (a.folded element).insert key (foldFree element key value) := by
  obtain ⟨entries, sorted⟩ := a
  refine Attributes.ext ?_
  show (insertEntry key value entries).map _ = insertEntry key (foldFree element key value) (entries.map _)
  clear sorted
  induction entries with
  | nil => rfl
  | cons e entries ih =>
    obtain ⟨k, v⟩ := e
    rw [List.map_cons, insertEntry, insertEntry]
    split
    · rfl
    · split
      · rfl
      · rw [List.map_cons, ih]

theorem folded_ofList (es : List (String × String)) :
    (ofList es).folded element = ofList (es.map fun e => (e.1, foldFree element e.1 e.2)) := by
  have hall : ∀ a : Attributes, (es.foldl (fun a e => a.insert e.1 e.2) a).folded element =
      (es.map fun e => (e.1, foldFree element e.1 e.2)).foldl (fun a e => a.insert e.1 e.2) (a.folded element) := by
    induction es with
    | nil => exact fun _ => rfl
    | cons e es ih =>
      intro a
      rw [List.foldl_cons, ih, folded_insert]
      rfl
  exact hall empty

end Attributes

/-! ## Forests -/

/-- Two outcomes that a map makes equal are one error, or two values that it makes equal. -/
theorem cases_of_map_eq_map {α β ε : Type} {f : α → β} {x y : Except ε α} (h : x.map f = y.map f) :
    (∃ e, x = .error e ∧ y = .error e) ∨ ∃ a b, x = .ok a ∧ y = .ok b ∧ f a = f b := by
  cases x with
  | error e =>
    cases y with
    | error e' =>
      cases h
      exact .inl ⟨e, rfl, rfl⟩
    | ok b => cases h
  | ok a =>
    cases y with
    | error e => cases h
    | ok b => exact .inr ⟨a, b, rfl, rfl, Except.ok.inj h⟩

section

variable (f : String → Attributes → Attributes)

/-- An event with other attributes, by the name of its element. -/
def Event.mapAttributes : Event → Event
  | .opening name attributes => .opening name (f name attributes)
  | .empty name attributes => .empty name (f name attributes)
  | .closing name => .closing name

mutual
/-- An element with other attributes, in itself and in all below it. -/
def Element.mapAttributes : Element → Element
  | ⟨name, attributes, children⟩ => ⟨name, f name attributes, mapForest children⟩

def mapForest : Forest → Forest
  | [] => []
  | e :: es => e.mapAttributes :: mapForest es
end

def OpenElement.mapAttributes (e : OpenElement) : OpenElement :=
  ⟨e.name, f e.name e.attributes, mapForest f e.children⟩

def Growth.mapAttributes (g : Growth) : Growth :=
  ⟨g.stack.map (OpenElement.mapAttributes f), mapForest f g.roots⟩

theorem Element.name_mapAttributes (e : Element) : (e.mapAttributes f).name = e.name := by
  cases e
  rfl

theorem Element.attributes_mapAttributes (e : Element) :
    (e.mapAttributes f).attributes = f e.name e.attributes := by
  cases e
  rfl

theorem mapForest_eq_map (es : Forest) : mapForest f es = es.map (Element.mapAttributes f) := by
  induction es with
  | nil => rfl
  | cons e es ih => rw [mapForest, ih, List.map_cons]

theorem mapForest_append (es es' : Forest) : mapForest f (es ++ es') = mapForest f es ++ mapForest f es' := by
  rw [mapForest_eq_map, mapForest_eq_map, mapForest_eq_map, List.map_append]

theorem Growth.mapAttributes_attach (g : Growth) (e : Element) :
    (g.attach e).mapAttributes f = (g.mapAttributes f).attach (e.mapAttributes f) := by
  have hone : mapForest f [e] = [e.mapAttributes f] := rfl
  obtain ⟨stack, roots⟩ := g
  cases stack with
  | nil =>
    show Growth.mk [] (mapForest f (roots ++ [e])) = _
    rw [mapForest_append, hone]
    rfl
  | cons top below =>
    show Growth.mk (OpenElement.mapAttributes f { top with children := top.children ++ [e] } :: _) _ = _
    rw [OpenElement.mapAttributes, mapForest_append, hone]
    rfl

/-- What an event does to the open elements does not depend on attributes. -/
theorem Growth.feed_mapAttributes (g : Growth) (e : Event) :
    (g.mapAttributes f).feed (e.mapAttributes f) = (g.feed e).map (Growth.mapAttributes f) := by
  cases e with
  | opening name attributes =>
    simp only [Event.mapAttributes, feed]
    split
    · exact congrArg Except.ok (mapAttributes_attach f g ⟨name, attributes, []⟩).symm
    · rfl
  | empty name attributes => exact congrArg Except.ok (mapAttributes_attach f g ⟨name, attributes, []⟩).symm
  | closing name =>
    obtain ⟨stack, roots⟩ := g
    simp only [Event.mapAttributes, feed]
    split
    · rfl
    · cases stack with
      | nil => rfl
      | cons top below =>
        show (if top.name = name then _ else _) = Except.map _ (if top.name = name then _ else _)
        split
        · exact congrArg Except.ok (mapAttributes_attach f ⟨below, roots⟩ top.close).symm
        · rfl

theorem feedAll_mapAttributes (g : Growth) (es : List Event) :
    feedAll (g.mapAttributes f) (es.map (Event.mapAttributes f)) = (feedAll g es).map (Growth.mapAttributes f) := by
  induction es generalizing g with
  | nil => rfl
  | cons e es ih =>
    rw [List.map_cons, feedAll_cons, feedAll_cons, Growth.feed_mapAttributes]
    cases g.feed e with
    | error fault => rfl
    | ok g' => exact ih g'

theorem Growth.finish_mapAttributes (g : Growth) : (g.mapAttributes f).finish = g.finish.map (mapForest f) := by
  obtain ⟨stack, roots⟩ := g
  cases stack <;> rfl

/-- Markup whose events have the same faults, and are the same but for what `f` does to attributes, is refused for
the same reason or has forests that are the same but for it. -/
theorem parse_mapAttributes {markup other : String}
    (hevents : (events markup).1.map (Event.mapAttributes f) = (events other).1.map (Event.mapAttributes f))
    (hfault : (events markup).2 = (events other).2) :
    (parse markup).map (mapForest f) = (parse other).map (mapForest f) := by
  have hfed : (feedAll {} (events markup).1).map (Growth.mapAttributes f) =
      (feedAll {} (events other).1).map (Growth.mapAttributes f) := by
    have hmarkup := feedAll_mapAttributes f {} (events markup).1
    have hother := feedAll_mapAttributes f {} (events other).1
    rw [← hmarkup, ← hother, hevents]
  have hfinish : ∀ x : Except NestingFault Forest,
      (x.mapError ParseError.nesting).map (mapForest f) = (x.map (mapForest f)).mapError .nesting :=
    fun x => by cases x <;> rfl
  unfold parse
  rcases cases_of_map_eq_map hfed with ⟨fault, hg, hg'⟩ | ⟨g, g', hg, hg', hsame⟩
  · rw [hg, hg']
  · rw [hg, hg', hfault]
    cases (events other).2 with
    | some error => rfl
    | none =>
      show (g.finish.mapError ParseError.nesting).map _ = (g'.finish.mapError ParseError.nesting).map _
      rw [hfinish, hfinish, ← Growth.finish_mapAttributes, ← Growth.finish_mapAttributes, hsame]

mutual
theorem Element.preorder_mapAttributes (e : Element) :
    (e.mapAttributes f).preorder = e.preorder.map (Element.mapAttributes f) := by
  obtain ⟨name, attributes, children⟩ := e
  rw [Element.preorder, List.map_cons, ← preorder_mapForest children]
  rfl

theorem preorder_mapForest (es : Forest) : preorder (mapForest f es) = (preorder es).map (Element.mapAttributes f) := by
  cases es with
  | nil => rfl
  | cons e es =>
    rw [mapForest, preorder, preorder, List.map_append, e.preorder_mapAttributes, preorder_mapForest es]
end

theorem find?_mapForest (es : Forest) (name : String) :
    find? (mapForest f es) name = (find? es name).map (Element.mapAttributes f) := by
  have hname : (·.name == name) ∘ Element.mapAttributes f = (·.name == name) :=
    funext fun e => congrArg (· == name) (e.name_mapAttributes f)
  unfold find?
  rw [preorder_mapForest, List.find?_map, hname]

theorem childrenNamed_mapAttributes (e : Element) (name : String) :
    (e.mapAttributes f).childrenNamed name = (e.childrenNamed name).map (Element.mapAttributes f) := by
  have hname : (·.name == name) ∘ Element.mapAttributes f = (·.name == name) :=
    funext fun e => congrArg (· == name) (e.name_mapAttributes f)
  obtain ⟨_, _, children⟩ := e
  show (mapForest f children).filter _ = _
  rw [mapForest_eq_map, List.filter_map, hname]
  rfl

end

/-! ## Small letters -/

/-- An event with its free values in small letters. -/
def Event.folded : Event → Event :=
  Event.mapAttributes Attributes.folded

/-- An element with the free values in it in small letters. -/
def Element.folded : Element → Element :=
  Element.mapAttributes Attributes.folded

/-- A forest with its free values in small letters. -/
def foldedForest : Forest → Forest :=
  mapForest Attributes.folded

namespace Element

variable {e : Element} {key : String}

theorem attribute?_folded (e : Element) (key : String) :
    e.folded.attribute? key = (e.attribute? key).map (foldFree e.name key) := by
  rw [attribute?, folded, attributes_mapAttributes, Attributes.get?_folded, attribute?]

theorem attribute?_folded_of_free (h : isFreeKey e.name key = true) :
    e.folded.attribute? key = (e.attribute? key).map fold := by
  have hfold : foldFree e.name key = fold := funext fun value => if_pos h
  rw [attribute?_folded, hfold]

theorem attribute?_folded_of_not_free (h : isFreeKey e.name key = false) :
    e.folded.attribute? key = e.attribute? key := by
  have hsame : foldFree e.name key = id := funext fun value => if_neg (by rw [h]; exact Bool.false_ne_true)
  rw [attribute?_folded, hsame, Option.map_id]
  rfl

end Element

end ResourceClient.Markup
