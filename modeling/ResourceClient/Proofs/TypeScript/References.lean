/-
Reading the types that a file of declarations refers to: each exported declaration, and the names that stand in it
where a type does. A name that is not the type parameter of its declaration is looked up in the file before it is
looked up outside, so that an exported declaration of this name captures it.

As with mentions, a file is read part by part; a part is read behind a lexeme that a type follows, or behind another.
-/
import ResourceClient.Proofs.TypeScript.Mentions

namespace ResourceClient.TypeScript

open Text

/-! ## Types -/

/-- What a reader of types meets. -/
inductive TypeEvent
  /-- A declaration with this name begins. -/
  | declared (name : String)
  /-- This name stands where a type does. -/
  | written (name : String)
  deriving DecidableEq, Repr

/-- Whether a type may follow a lexeme: behind a colon, in a union, in angle brackets, and behind the signs of an alias
and of an arrow. -/
def Lexeme.opensType : Lexeme → Bool
  | .mark m => m == ':' || m == '|' || m == '<' || m == '=' || m == '>'
  | _ => false

/-- What the first of some lexemes tells. -/
def typeEvent (isOpen : Bool) (l : Lexeme) (ls : List Lexeme) : List TypeEvent :=
  match (mention? (l :: ls)).bind Mention.exported?, l with
  | some name, _ => [.declared name]
  | none, .word w => if isOpen then [.written w] else []
  | none, _ => []

/-- What lexemes tell that stand where a type may or may not follow. -/
def typeEvents (isOpen : Bool) : List Lexeme → List TypeEvent
  | [] => []
  | l :: ls => typeEvent isOpen l ls ++ typeEvents l.opensType ls

/-- A declaration, with the names where its types stand. The first of them is its type parameter. -/
structure TypeDeclaration where
  name : String
  types : List String
  deriving DecidableEq, Repr

/-- The names before the first declaration, and the declarations with the names behind each. -/
def group : List TypeEvent → List String × List TypeDeclaration
  | [] => ([], [])
  | .declared name :: es => ([], ⟨name, (group es).1⟩ :: (group es).2)
  | .written name :: es => (name :: (group es).1, (group es).2)

/-- The declarations of a text, in order. -/
def typeDeclarations (text : String) : List TypeDeclaration :=
  (group (typeEvents false (lexemes text))).2

/-- The types that a declaration takes from elsewhere. -/
def TypeDeclaration.free (d : TypeDeclaration) : List String :=
  match d.types with
  | [] => []
  | parameter :: types => types.filter (· != parameter)

/-- Whether a declaration of a name, beside the others of a text, is what one of these refers to. -/
def Captures (text name : String) : Prop :=
  ∃ d ∈ typeDeclarations text, d.name ≠ name ∧ name ∈ d.free

/-- What a declaration tells that has certain types. -/
def TypeDeclaration.events (d : TypeDeclaration) : List TypeEvent :=
  .declared d.name :: d.types.map .written

theorem group_written (names : List String) (es : List TypeEvent) :
    group (names.map .written ++ es) = (names ++ (group es).1, (group es).2) := by
  induction names with
  | nil => rfl
  | cons name names ih =>
    rw [List.map_cons, List.cons_append, group, ih]
    rfl

theorem group_events (ds : List TypeDeclaration) : group (ds.flatMap TypeDeclaration.events) = ([], ds) := by
  induction ds with
  | nil => rfl
  | cons d ds ih =>
    rw [List.flatMap_cons, TypeDeclaration.events, List.cons_append, group, group_written, ih, List.append_nil]

/-! ## Parts of a file -/

theorem typeEvent_congr {l : Lexeme} {ls ms : List Lexeme} (h : mention? (l :: ls) = mention? (l :: ms)) (isOpen : Bool) :
    typeEvent isOpen l ls = typeEvent isOpen l ms := by
  unfold typeEvent
  rw [h]

theorem typeEvents_barrier {m : Lexeme} (hm : m.isBarrier = true) (isOpen : Bool) (a b : List Lexeme) :
    typeEvents isOpen (a ++ m :: b) = typeEvents isOpen (a ++ [m]) ++ typeEvents m.opensType b := by
  induction a generalizing isOpen with
  | nil =>
    have hfirst := typeEvent_congr (mention?_barrier hm [] b) isOpen
    rw [List.nil_append, List.nil_append, typeEvents, typeEvents, typeEvents, hfirst, List.append_nil]
  | cons l a ih =>
    have hfirst : typeEvent isOpen l (a ++ m :: b) = typeEvent isOpen l (a ++ [m]) :=
      typeEvent_congr (mention?_barrier hm (l :: a) b) isOpen
    rw [List.cons_append, List.cons_append, typeEvents, typeEvents, hfirst, ih, List.append_assoc]

/-- Whether a text, as a part of a file, tells something by itself, and whether a type may follow it. -/
def HasTypes (isOpen : Bool) (text : String) (es : List TypeEvent) (opens : Bool) : Prop :=
  ∃ ls, Reads text ls ∧ ∀ more, typeEvents isOpen (ls ++ more) = es ++ typeEvents opens more

/-- Whether a type may follow some lexemes. -/
def opensAfter (isOpen : Bool) (ls : List Lexeme) : Bool :=
  (ls.getLast?.map Lexeme.opensType).getD isOpen

/-- What a text that ends at a barrier tells, and whether a type may follow it. -/
def typesOf? (isOpen : Bool) (cs : List Char) : Option (List TypeEvent × Bool) :=
  match Lexing.run .code cs with
  | (.code, ls) =>
    if ls.getLast?.all Lexeme.isBarrier then some (typeEvents isOpen ls, opensAfter isOpen ls) else none
  | _ => none

namespace HasTypes

variable {isOpen mid opens : Bool} {a b : String} {ea eb : List TypeEvent} {cs : List Char}

theorem typeEvents_eq (h : HasTypes false a ea opens) : typeEvents false (lexemes a) = ea := by
  obtain ⟨ls, hr, hm⟩ := h
  have hnil := hm []
  rw [List.append_nil] at hnil
  rw [hr.lexemes_eq, hnil]
  exact List.append_nil ea

theorem of_reads {ls : List Lexeme} (h : Reads a ls) (hlast : ls.getLast?.all Lexeme.isBarrier = true) :
    HasTypes isOpen a (typeEvents isOpen ls) (opensAfter isOpen ls) := by
  refine ⟨ls, h, fun more => ?_⟩
  rcases List.eq_nil_or_concat' ls with rfl | ⟨init, m, rfl⟩
  · rfl
  · rw [List.getLast?_concat, Option.all_some] at hlast
    rw [List.append_assoc, List.singleton_append, typeEvents_barrier hlast, opensAfter, List.getLast?_concat]
    rfl

theorem ofList (h : typesOf? isOpen cs = some (ea, opens)) : HasTypes isOpen (String.ofList cs) ea opens := by
  unfold typesOf? at h
  split at h
  · rename_i ls hr
    split at h
    · rename_i hlast
      cases h
      exact of_reads (.ofList hr) hlast
    · cases h
  · cases h

theorem empty : HasTypes isOpen "" [] isOpen :=
  ⟨[], rfl, fun _ => rfl⟩

theorem append (ha : HasTypes isOpen a ea mid) (hb : HasTypes mid b eb opens) :
    HasTypes isOpen (a ++ b) (ea ++ eb) opens := by
  obtain ⟨la, hra, hma⟩ := ha
  obtain ⟨lb, hrb, hmb⟩ := hb
  refine ⟨la ++ lb, hra.append hrb, fun more => ?_⟩
  rw [List.append_assoc, hma, hmb, List.append_assoc]

theorem join {α : Type} {f : α → String} {g : α → List TypeEvent} {xs : List α}
    (h : ∀ x ∈ xs, HasTypes false (f x) (g x) false) : HasTypes false (String.join (xs.map f)) (xs.flatMap g) false :=
  join_of_parts (P := fun text es => HasTypes false text es false) empty append h

theorem intercalate {α : Type} {f : α → String} {g : α → List TypeEvent} {sep ending : String} {xs : List α}
    (hend : HasTypes false ending [] false)
    (h : ∀ x ∈ xs, HasTypes false (f x ++ sep) (g x) false ∧ HasTypes false (f x ++ ending) (g x) false) :
    HasTypes false (sep.intercalate (xs.map f) ++ ending) (xs.flatMap g) false :=
  intercalate_of_parts (P := fun text es => HasTypes false text es false) hend append h

/-- A name that no type stands at tells nothing, if a mark stands behind it that is part of no mention. -/
theorem name {w : String} (hw : isShaped w.toList = true) {c : Char} (hc : Lexing.inCode c = (.code, [.mark c]))
    (hm : c ≠ '(' ∧ c ≠ '.') (h : typesOf? false (c :: cs) = some (eb, opens)) :
    HasTypes false (w ++ String.ofList (c :: cs)) eb opens := by
  obtain ⟨ls, hr, hls⟩ := ofList h
  obtain ⟨hread, hnone⟩ := hr.name_mark hw hc hm
  refine ⟨.word w :: ls, hread, fun more => ?_⟩
  have hsilent : typeEvent false (.word w) (ls ++ more) = [] := by
    unfold typeEvent
    rw [hnone]
    rfl
  rw [List.cons_append, typeEvents, hsilent]
  exact hls more

/-- The key of a field tells nothing. -/
theorem propertyName {c : Char} (name : String) (hc : Lexing.inCode c = (.code, [.mark c])) (hm : c ≠ '(' ∧ c ≠ '.')
    (h : typesOf? false (c :: cs) = some (eb, opens)) :
    HasTypes false (TypeScript.propertyName name ++ String.ofList (c :: cs)) eb opens := by
  unfold TypeScript.propertyName
  split
  · rename_i hname
    exact .name hname hc hm h
  · have hliteral : HasTypes false (String.ofList ('\x27' :: (name.toList.flatMap quoteChar ++ ['\x27']))) [] false :=
      of_reads (.literal (by decide) (by decide) run_quoteChar name.toList) rfl
    exact hliteral.append (.ofList h)

end HasTypes

/-! ## Interfaces of endpoints -/

/-- The name at the head of a type. -/
def headName (type : String) : String :=
  String.ofList (type.toList.takeWhile isNameChar)

theorem hasTypes_typescript (t : ArgumentType) :
    HasTypes true (t.typescript ++ "; ") [.written (headName t.typescript)] false ∧
      HasTypes true (t.typescript ++ " \x7d") [.written (headName t.typescript)] false := by
  cases t <;> unfold ArgumentType.typescript <;>
    rw [← String.ofList_append, ← String.ofList_append] <;>
    exact ⟨.ofList (by rfl), .ofList (by rfl)⟩

theorem hasTypes_field {f : Field} (h : ∃ t : ArgumentType, f.type = t.typescript) :
    HasTypes false (f.render ++ "; ") [.written (headName f.type)] false ∧
      HasTypes false (f.render ++ " \x7d") [.written (headName f.type)] false := by
  obtain ⟨t, ht⟩ := h
  have hkey : HasTypes false (propertyName f.name ++ (if f.optional then "?" else "") ++ ": ") [] true := by
    split
    · have hmark : HasTypes false (propertyName f.name ++ "?") [] false :=
        .propertyName f.name (by decide) (by decide) (by decide)
      exact hmark.append (.ofList (by decide))
    · rw [String.append_empty]
      exact .propertyName f.name (by decide) (by decide) (by decide)
  have hsep := hkey.append (hasTypes_typescript t).1
  have hend := hkey.append (hasTypes_typescript t).2
  rw [← String.append_assoc, ← ht] at hsep hend
  exact ⟨hsep, hend⟩

/-- The names of the types of the fields of a method. -/
def Method.typeNames (m : Method) : List String :=
  m.fields.map fun f => headName f.type

theorem hasTypes_dataType {m : Method} (h : m.IsSafe) :
    HasTypes true m.dataType (m.typeNames.map .written) false := by
  unfold Method.dataType Method.typeNames
  split
  · rename_i hnil
    rw [List.isEmpty_iff.1 hnil]
    exact .ofList (by decide)
  · have hopen : HasTypes true "\x7b " [] false := .ofList (by decide)
    have hclose : HasTypes false " \x7d" [] false := .ofList (by decide)
    have hfields : HasTypes false ("; ".intercalate (m.fields.map Field.render) ++ " \x7d")
        (m.fields.flatMap fun f => [.written (headName f.type)]) false :=
      .intercalate hclose fun f hf => hasTypes_field (h.types f hf)
    have hnames : (m.fields.map fun f => headName f.type).map TypeEvent.written =
        m.fields.flatMap fun f => [.written (headName f.type)] := by
      rw [List.map_map, List.map_eq_flatMap]
      rfl
    rw [String.append_assoc, hnames]
    exact hopen.append hfields

theorem hasTypes_method {m : Method} (h : m.IsSafe) :
    HasTypes false m.render ((m.typeNames ++ ["any", "TResult"]).map .written) false := by
  have hindent : HasTypes false "        " [] false := .ofList (by decide)
  have hname : HasTypes false (m.name ++ ": (data?: ") [] true := .name h.name (by decide) (by decide) (by rfl)
  have hrest : HasTypes false ", options?: any) => TResult;\n" [.written "any", .written "TResult"] false :=
    .ofList (by rfl)
  have hall := ((hindent.append hname).append (hasTypes_dataType h)).append hrest
  rw [← String.append_assoc] at hall
  rw [List.map_append]
  exact hall

/-- The names where the types of an interface stand. -/
def Declaration.toType (d : Declaration) : TypeDeclaration where
  name := d.name
  types := "TResult" :: (d.parameters.flatMap (fun _ => ["string", "number"]) ++
    (d.methods.flatMap (fun m => m.typeNames ++ ["any", "TResult"]) ++ ["string"]))

theorem hasTypes_declaration {d : Declaration} (h : d.IsSafe) : HasTypes false d.render d.toType.events false := by
  have hhead : HasTypes false ("export interface " ++ (d.name ++ "<TResult> \x7b\n"))
      [.declared d.name, .written "TResult"] false := by
    have hexport : Reads "export interface " [.word "export", .word "interface"] := .ofList (by rfl)
    have hname : Reads (d.name ++ "<TResult> \x7b\n")
        [.word d.name, .mark '<', .word "TResult", .mark '>', .mark '\x7b'] :=
      .name h.name (by decide) (by rfl)
    exact .of_reads (hexport.append hname) rfl
  have hopen : HasTypes false "    (" [] false := .ofList (by decide)
  have hclose : HasTypes false "): \x7b\n" [] false := .ofList (by decide)
  have hparameters : HasTypes false (", ".intercalate (d.parameters.map (· ++ ": string | number")) ++ "): \x7b\n")
      (d.parameters.flatMap fun _ => [.written "string", .written "number"]) false := by
    refine .intercalate hclose fun p hp => ?_
    rw [String.append_assoc, String.append_assoc, ← String.ofList_append, ← String.ofList_append]
    exact ⟨.name (h.parameters p hp) (by decide) (by decide) (by rfl),
      .name (h.parameters p hp) (by decide) (by decide) (by rfl)⟩
  have hmethods : HasTypes false (String.join (d.methods.map Method.render))
      (d.methods.flatMap fun m => (m.typeNames ++ ["any", "TResult"]).map .written) false :=
    .join fun m hm => hasTypes_method (h.methods m hm)
  have hurl : HasTypes false "        url: string;\n" [.written "string"] false := .ofList (by rfl)
  have hend : HasTypes false "    \x7d;\n" [] false := .ofList (by decide)
  have hlast : HasTypes false "\x7d\n" [] false := .ofList (by decide)
  have hall := hhead.append (hopen.append (hparameters.append (hmethods.append (hurl.append (hend.append hlast)))))
  unfold Declaration.render Declaration.toType TypeDeclaration.events
  rw [List.map_cons, List.map_append, List.map_append, List.map_flatMap, List.map_flatMap]
  -- the fixed texts side by side are left apart
  simp only [String.append_assoc, -String.reduceAppend] at hall ⊢
  exact hall

/-! ## Fixed texts -/

/-- Lines for the verbs between fixed lines. -/
theorem hasTypes_lines {before after : List (List Char)} {eb ea : List TypeEvent} {line : Verb → String}
    {g : Verb → List TypeEvent} (hbefore : typesOf? false (before.flatMap (· ++ ['\n'])) = some (eb, false))
    (hline : ∀ v, HasTypes false (line v ++ "\n") (g v) false)
    (hafter : typesOf? false (after.flatMap (· ++ ['\n'])) = some (ea, false)) :
    HasTypes false (unlines (before.map String.ofList ++ Verb.all.map line ++ after.map String.ofList))
      (eb ++ Verb.all.flatMap g ++ ea) false := by
  have hverbs : HasTypes false (unlines (Verb.all.map line)) (Verb.all.flatMap g) false := by
    unfold unlines
    rw [List.map_map]
    exact .join fun v _ => hline v
  rw [unlines_append, unlines_append, unlines_ofList, unlines_ofList]
  exact ((HasTypes.ofList hbefore).append hverbs).append (.ofList hafter)

theorem hasTypes_transportMethod (v : Verb) : HasTypes false (transportMethod v ++ "\n")
    ((if v.sendsBody then ["string", "any", "any", "TResult"] else ["string", "any", "TResult"]).map .written) false := by
  cases v <;> unfold transportMethod Verb.name Verb.sendsBody <;>
    simp only [Bool.false_eq_true, if_true, if_false, -String.reduceAppend] <;>
    repeat rw [← String.ofList_append]
  all_goals exact .ofList (by rfl)

theorem hasTypes_resourceMethod (v : Verb) :
    HasTypes false (resourceMethod v ++ "\n") (["any", "any", "TResult"].map .written) false := by
  cases v <;> unfold resourceMethod Verb.proxyMethod <;> repeat rw [← String.ofList_append]
  all_goals exact .ofList (by rfl)

def transportType : TypeDeclaration where
  name := "TaffyHttpClientProvider"
  types := "TResult" :: Verb.all.flatMap fun v =>
    if v.sendsBody then ["string", "any", "any", "TResult"] else ["string", "any", "TResult"]

def resourceType : TypeDeclaration where
  name := "TaffyResource"
  types := "TResult" :: (Verb.all.flatMap fun _ => ["any", "any", "TResult"]) ++ ["string"]

def factoryType : TypeDeclaration where
  name := "TaffyResourceFactory"
  types := ["TResult", "Array", "string", "number", "TaffyResource", "TResult"]

theorem hasTypes_transportDeclaration : HasTypes false transportDeclaration transportType.events false := by
  have hall : HasTypes false transportDeclaration
      ([.declared "TaffyHttpClientProvider", .written "TResult"] ++ Verb.all.flatMap _ ++ []) false :=
    @hasTypes_lines [_] [_] _ _ _ _ (by rfl) hasTypes_transportMethod (by decide)
  exact hall

set_option maxRecDepth 4000 in
theorem hasTypes_resourceTypes : HasTypes false resourceTypes (resourceType.events ++ factoryType.events) false := by
  unfold resourceTypes
  rw [← String.ofList_append]
  show HasTypes false _ ([.declared "TaffyResource", .written "TResult"] ++
    Verb.all.flatMap (fun _ => ["any", "any", "TResult"].map .written) ++ (.written "string" :: factoryType.events)) false
  exact @hasTypes_lines [_] [_, _, _, _] _ _ _ _ (by rfl) hasTypes_resourceMethod (by rfl)

/-! ## Names that are referred to -/

/-- The fixed texts refer to one type of the language beside those that are words of it, and to one of their own. -/
theorem mem_free_fixed {name : String} (hword : name ∉ reserved) (hfree : name ∉ generated) :
    (∃ d ∈ [transportType, resourceType, factoryType], d.name ≠ name ∧ name ∈ d.free) ↔ name = "Array" := by
  have htransport : ∀ used ∈ transportType.free, used ∈ reserved := by decide
  have hresource : ∀ used ∈ resourceType.free, used ∈ reserved := by decide
  have hfactory : factoryType.free = ["Array", "string", "number", "TaffyResource"] := by decide
  constructor
  · rintro ⟨d, hd, -, hname⟩
    simp only [List.mem_cons, List.not_mem_nil, or_false] at hd
    rcases hd with rfl | rfl | rfl
    · exact absurd (htransport _ hname) hword
    · exact absurd (hresource _ hname) hword
    · rw [hfactory] at hname
      simp only [List.mem_cons, List.not_mem_nil, or_false] at hname
      rcases hname with rfl | rfl | rfl | rfl
      · rfl
      · exact absurd (by decide) hword
      · exact absurd (by decide) hword
      · exact absurd (by decide) hfree
  · rintro rfl
    exact ⟨factoryType, by decide, by decide, by decide⟩

theorem headName_typescript (t : ArgumentType) :
    headName t.typescript ∈ reserved ∨ headName t.typescript = "Object" ∧ t.typescript = "Object" := by
  cases t <;> decide

theorem mem_typeNames {m : Method} (h : m.IsSafe) {name : String} (hword : name ∉ reserved) :
    name ∈ m.typeNames ↔ name = "Object" ∧ ∃ f ∈ m.fields, f.type = "Object" := by
  rw [Method.typeNames, List.mem_map]
  constructor
  · rintro ⟨f, hf, rfl⟩
    obtain ⟨t, ht⟩ := h.types f hf
    rw [ht] at hword ⊢
    obtain ⟨hname, htype⟩ := (headName_typescript t).resolve_left hword
    exact ⟨hname, f, hf, ht.trans htype⟩
  · rintro ⟨rfl, f, hf, ht⟩
    exact ⟨f, hf, by rw [ht]; decide⟩

/-- An interface refers to one type of the language beside those that are words of it, if it has a field for a struct. -/
theorem mem_free_toType {d : Declaration} (h : d.IsSafe) {name : String} (hword : name ∉ reserved) :
    name ∈ d.toType.free ↔ name = "Object" ∧ ∃ m ∈ d.methods, ∃ f ∈ m.fields, f.type = "Object" := by
  have hstring : name ≠ "string" := by rintro rfl; exact hword (by decide)
  have hnumber : name ≠ "number" := by rintro rfl; exact hword (by decide)
  have hany : name ≠ "any" := by rintro rfl; exact hword (by decide)
  have hfree : name ∈ d.toType.free ↔ (∃ m ∈ d.methods, name ∈ m.typeNames) ∧ name ≠ "TResult" := by
    show name ∈ List.filter _ _ ↔ _
    simp only [List.mem_filter, List.mem_append, List.mem_flatMap, List.mem_cons, List.not_mem_nil, or_false, hstring,
      hnumber, hany, false_or, and_false, exists_false, bne_iff_ne]
    exact ⟨fun ⟨⟨m, hm, hname⟩, hne⟩ => ⟨⟨m, hm, hname.resolve_right hne⟩, hne⟩,
      fun ⟨⟨m, hm, hname⟩, hne⟩ => ⟨⟨m, hm, .inl hname⟩, hne⟩⟩
  rw [hfree]
  constructor
  · rintro ⟨⟨m, hm, hname⟩, -⟩
    obtain ⟨rfl, hfield⟩ := (mem_typeNames (h.methods m hm) hword).1 hname
    exact ⟨rfl, m, hm, hfield⟩
  · rintro ⟨rfl, m, hm, hfield⟩
    exact ⟨⟨m, hm, (mem_typeNames (h.methods m hm) hword).2 ⟨rfl, hfield⟩⟩, by decide⟩

end ResourceClient.TypeScript
