/-
Reading the text of an interface back. A reader that knows nothing of the endpoint finds the name, the call
parameters, the methods and their fields again, whatever characters the names of the fields have; so different
interfaces have different texts.
-/
import ResourceClient.Proofs.Text.Blank
import ResourceClient.Proofs.Text.Search
import ResourceClient.Proofs.TypeScript.Mentions

namespace ResourceClient.TypeScript

open Text

/-! ## Readers

A reader takes a thing off the front of a text and gives what follows it. -/

section Readers

variable {α : Type} {read : List Char → Option (α × List Char)}

/-- Reads one thing after the other for as long as there is one. -/
def readMany (read : List Char → Option (α × List Char)) (cs : List Char) : List α × List Char :=
  match read cs with
  | none => ([], cs)
  | some (a, rest) =>
    if rest.length < cs.length then (a :: (readMany read rest).1, (readMany read rest).2) else ([], cs)
termination_by cs.length

/-- Reads things that have a separator between each two. -/
def readSeparated (separator : List Char) (read : List Char → Option (α × List Char)) (cs : List Char) :
    List α × List Char :=
  match read cs with
  | none => ([], cs)
  | some (a, rest) =>
    let (as, rest) := readMany (fun ds => (strip? separator ds).bind read) rest
    (a :: as, rest)

/-- Whether a thing is read off each text that begins with a certain one, and just this beginning is taken. -/
def ReadsBack (read : List Char → Option (α × List Char)) (a : α) (text : List Char) : Prop :=
  ∀ rest, read (text ++ rest) = some (a, rest)

theorem readMany_of_none {cs : List Char} (h : read cs = none) : readMany read cs = ([], cs) := by
  rw [readMany, h]

/-- A thing is read before what follows it, by a reader that does not find one everywhere. -/
theorem readMany_append {a : α} {text bare : List Char} (h : ReadsBack read a text) (hbare : read bare = none)
    (rest : List Char) :
    readMany read (text ++ rest) = (a :: (readMany read rest).1, (readMany read rest).2) := by
  have hne : text ≠ [] := by
    rintro rfl
    have hfound := h bare
    rw [List.nil_append, hbare] at hfound
    cases hfound
  have hlength : rest.length < (text ++ rest).length := by
    have hpos := List.length_pos_iff.2 hne
    rw [List.length_append]
    omega
  rw [readMany, h]
  exact if_pos hlength

theorem readMany_flatMap {β : Type} {f : β → α} {write : β → List Char} {bs : List β} {bare : List Char}
    (h : ∀ b ∈ bs, ReadsBack read (f b) (write b)) (hbare : read bare = none) (rest : List Char) :
    readMany read (bs.flatMap write ++ rest) = (bs.map f ++ (readMany read rest).1, (readMany read rest).2) := by
  induction bs with
  | nil => rfl
  | cons b bs ih =>
    rw [List.flatMap_cons, List.append_assoc, readMany_append (h b List.mem_cons_self) hbare,
      ih fun c hc => h c (List.mem_cons_of_mem _ hc)]
    rfl

theorem intercalate_map_cons (separator : List Char) (write : α → List Char) (a : α) (as : List α) :
    separator.intercalate ((a :: as).map write) = write a ++ as.flatMap (separator ++ write ·) := by
  induction as generalizing a with
  | nil => rw [List.map_singleton, List.intercalate_singleton, List.flatMap_nil, List.append_nil]
  | cons b as ih =>
    rw [List.map_cons, List.map_cons, List.intercalate_cons_cons, ← List.map_cons, ih, List.flatMap_cons]
    simp only [List.append_assoc]

theorem readSeparated_intercalate {separator : List Char} {write : α → List Char} {as : List α} {rest : List Char}
    (h : ∀ a ∈ as, ReadsBack read a (write a)) (hnil : as = [] → read rest = none)
    (hsep : strip? separator rest = none) :
    readSeparated separator read (separator.intercalate (as.map write) ++ rest) = (as, rest) := by
  cases as with
  | nil =>
    unfold readSeparated
    rw [List.map_nil, List.intercalate_nil, List.nil_append, hnil rfl]
  | cons a as =>
    have hmany : readMany (fun ds => (strip? separator ds).bind read) (as.flatMap (separator ++ write ·) ++ rest) =
        (as, rest) := by
      have hnone : (strip? separator rest).bind read = none := by rw [hsep]; rfl
      have hitems : ∀ b ∈ as, ReadsBack (fun ds => (strip? separator ds).bind read) (id b) (separator ++ write b) := by
        intro b hb more
        show (strip? separator (separator ++ write b ++ more)).bind read = some (b, more)
        rw [List.append_assoc, strip?_append]
        exact h b (List.mem_cons_of_mem _ hb) more
      rw [readMany_flatMap hitems hnone, readMany_of_none hnone, List.map_id, List.append_nil]
    unfold readSeparated
    rw [intercalate_map_cons, List.append_assoc, h a List.mem_cons_self]
    simp only [hmany]

end Readers

/-! ## Names -/

/-- Takes the characters of a name. -/
def readName (cs : List Char) : String × List Char :=
  (String.ofList (cs.takeWhile isNameChar), cs.dropWhile isNameChar)

/-- Reads a single-quoted literal after its first quote, in which a character behind a backslash is meant as it
stands. -/
def readQuoted? : List Char → Option (List Char × List Char)
  | [] => none
  | '\x27' :: rest => some ([], rest)
  | '\\' :: c :: cs => (readQuoted? cs).map fun (seen, rest) => (c :: seen, rest)
  | c :: cs => (readQuoted? cs).map fun (seen, rest) => (c :: seen, rest)

/-- Reads the key of a property, which is a name or a literal. -/
def readKey? : List Char → Option (String × List Char)
  | '\x27' :: cs => (readQuoted? cs).map fun (seen, rest) => (String.ofList seen, rest)
  | cs => some (readName cs)

/-- Whether a text begins with a character that is none of a name. -/
def endsName : List Char → Bool
  | [] => false
  | c :: _ => !isNameChar c

theorem endsName_append {w : List Char} (h : endsName w = true) (rest : List Char) :
    endsName (w ++ rest) = true := by
  cases w with
  | nil => cases h
  | cons c w => exact h

theorem readName_of_all {w : List Char} (hw : w.all isNameChar = true) {cs : List Char} (hc : endsName cs = true) :
    readName (w ++ cs) = (String.ofList w, cs) := by
  cases cs with
  | nil => cases hc
  | cons c cs =>
    have hstop : isNameChar c = false := by simpa [endsName] using hc
    rw [List.all_eq_true] at hw
    rw [readName, takeWhile_append_cons hw hstop, dropWhile_append_cons_of_all hw hstop]

theorem readName_append {name : String} (hn : isShaped name.toList = true) {cs : List Char}
    (hc : endsName cs = true) : readName (name.toList ++ cs) = (name, cs) := by
  rw [readName_of_all (all_of_isShaped hn) hc, String.ofList_toList]

/-- What has the shape of an identifier begins with a character of a name. -/
theorem isShaped_append_ne {cs : List Char} (h : isShaped cs = true) {c : Char} (hc : isNameChar c = false)
    (rest text : List Char) : cs ++ rest ≠ c :: text := by
  cases cs with
  | nil => cases h
  | cons d ds =>
    have hall := all_of_isShaped h
    rw [List.all_cons, Bool.and_eq_true] at hall
    intro ht
    rw [(List.cons.inj ht).1, hc] at hall
    cases hall.1

theorem readQuoted?_quoteChar (c : Char) (cs : List Char) :
    readQuoted? (quoteChar c ++ cs) = (readQuoted? cs).map fun (seen, rest) => (c :: seen, rest) := by
  unfold quoteChar
  split
  · rfl
  · rename_i hc
    rw [not_or] at hc
    rw [List.singleton_append, readQuoted?]
    · exact hc.2
    · exact fun _ _ h _ => hc.1 h

/-- A literal is read to its end, whatever characters are quoted in it. -/
theorem readQuoted?_flatMap (seen rest : List Char) :
    readQuoted? (seen.flatMap quoteChar ++ '\x27' :: rest) = some (seen, rest) := by
  induction seen with
  | nil => rfl
  | cons c seen ih => rw [List.flatMap_cons, List.append_assoc, readQuoted?_quoteChar, ih]; rfl

theorem readKey?_propertyName (name : String) {cs : List Char} (hc : endsName cs = true) :
    readKey? ((propertyName name).toList ++ cs) = some (name, cs) := by
  unfold propertyName
  split
  · rename_i hn
    rw [readKey?, readName_append hn hc]
    exact isShaped_append_ne hn (by decide) cs
  · rw [String.toList_ofList, List.cons_append, List.append_assoc, readKey?, List.singleton_append,
      readQuoted?_flatMap]
    simp only [Option.map_some, String.ofList_toList]

/-! ## Fields -/

/-- Reads the type of an argument. -/
def readType? (cs : List Char) : Option (String × List Char) :=
  ArgumentType.all.findSome? fun t => (strip? t.typescript.toList cs).map (t.typescript, ·)

/-- Reads a field: its key, a mark if it is optional, and its type. -/
def Field.read? (cs : List Char) : Option (Field × List Char) := do
  let (name, cs) ← readKey? cs
  let mark := strip? "?".toList cs
  let cs ← strip? ": ".toList (mark.getD cs)
  let (type, cs) ← readType? cs
  return (⟨name, mark.isSome, type⟩, cs)

/-- None of the types that arguments may have is the beginning of another. -/
theorem strip?_typescript (s t : ArgumentType) (rest : List Char) :
    strip? s.typescript.toList (t.typescript.toList ++ rest) =
      if s.typescript = t.typescript then some rest else none := by
  split
  · rename_i h
    rw [h, strip?_append]
  · rename_i h
    refine strip?_append_eq_none ?_ rest
    revert h
    cases s <;> cases t <;> simp [ArgumentType.typescript]

theorem readsBack_typescript (t : ArgumentType) : ReadsBack readType? t.typescript t.typescript.toList := by
  intro rest
  unfold readType?
  simp only [strip?_typescript]
  cases t <;> simp [ArgumentType.all, ArgumentType.typescript]

/-- A field is read back, whatever its name. -/
theorem Field.readsBack {f : Field} (h : ∃ t : ArgumentType, f.type = t.typescript) :
    ReadsBack Field.read? f f.render.toList := by
  obtain ⟨name, optional, type⟩ := f
  obtain ⟨t, rfl⟩ := h
  intro rest
  have htype := readsBack_typescript t rest
  unfold Field.read? Field.render
  simp only [String.toList_append, List.append_assoc, Option.bind_eq_bind]
  generalize t.typescript.toList ++ rest = typed at htype ⊢
  have hcolon := strip?_append ": ".toList typed
  cases optional with
  | false =>
    have hkey := readKey?_propertyName name (endsName_append (w := ": ".toList) rfl typed)
    have hmark : strip? "?".toList (": ".toList ++ typed) = none := strip?_append_eq_none (by decide) _
    simp only [Bool.false_eq_true, if_false, String.toList_empty, List.nil_append, hkey, hmark, hcolon, htype,
      Option.getD_none, Option.bind_some]
    rfl
  | true =>
    have hkey := readKey?_propertyName name
      (endsName_append (w := "?".toList) rfl (": ".toList ++ typed))
    have hmark := strip?_append "?".toList (": ".toList ++ typed)
    simp only [if_true, hkey, hmark, hcolon, htype, Option.getD_some, Option.bind_some]
    rfl

/-! ## Methods -/

/-- Reads the type of the data of a method. -/
def readDataType? (cs : List Char) : Option (List Field × List Char) :=
  match strip? "\x7b\x7d".toList cs with
  | some rest => some ([], rest)
  | none => do
    let cs ← strip? "\x7b ".toList cs
    let (fields, cs) := readSeparated "; ".toList Field.read? cs
    let cs ← strip? " \x7d".toList cs
    return (fields, cs)

/-- Reads the line of a method. -/
def Method.read? (cs : List Char) : Option (Method × List Char) := do
  let cs ← strip? "        ".toList cs
  let (name, cs) := readName cs
  let cs ← strip? ": (data?: ".toList cs
  let (fields, cs) ← readDataType? cs
  let cs ← strip? ", options?: any) => TResult;\n".toList cs
  return (⟨name, fields⟩, cs)

theorem readsBack_dataType {m : Method} (h : m.IsSafe) : ReadsBack readDataType? m.fields m.dataType.toList := by
  intro rest
  unfold readDataType? Method.dataType
  by_cases hnil : m.fields = []
  · simp only [hnil, List.isEmpty_nil, if_true, strip?_append]
  · have hopen : strip? "\x7b\x7d".toList
        ("\x7b ".toList ++ (("; ".intercalate (m.fields.map Field.render)).toList ++ (" \x7d".toList ++ rest))) = none :=
      strip?_append_eq_none (by decide) _
    have hfields : readSeparated "; ".toList Field.read?
        (("; ".intercalate (m.fields.map Field.render)).toList ++ (" \x7d".toList ++ rest)) =
          (m.fields, " \x7d".toList ++ rest) := by
      rw [String.toList_intercalate, List.map_map]
      exact readSeparated_intercalate (fun f hf => Field.readsBack (h.types f hf)) (fun hn => absurd hn hnil)
        (strip?_append_eq_none (by decide) _)
    simp only [List.isEmpty_iff, hnil, if_false, String.toList_append, List.append_assoc, hopen, Option.bind_eq_bind,
      strip?_append, Option.bind_some, hfields]
    rfl

/-- A method is read back. -/
theorem Method.readsBack {m : Method} (h : m.IsSafe) : ReadsBack Method.read? m m.render.toList := by
  intro rest
  have hdata := readsBack_dataType h (", options?: any) => TResult;\n".toList ++ rest)
  have hname := readName_append h.name (endsName_append (w := ": (data?: ".toList) rfl
    (m.dataType.toList ++ (", options?: any) => TResult;\n".toList ++ rest)))
  unfold Method.read? Method.render
  simp only [String.toList_append, List.append_assoc, Option.bind_eq_bind, strip?_append, Option.bind_some, hname, hdata]
  rfl

/-! ## Interfaces -/

/-- Reads a call parameter, of either of the types that paths are filled with. -/
def readParameter? (cs : List Char) : Option (String × List Char) := do
  let (name, cs) := readName cs
  let cs ← strip? ": string | number".toList cs
  return (name, cs)

/-- Reads what stands behind the name of an interface to its end: the call parameters and the methods. -/
def readBody? (cs : List Char) : Option (List String × List Method) := do
  let cs ← strip? "<TResult> \x7b\n".toList cs
  let cs ← strip? "    (".toList cs
  let (parameters, cs) := readSeparated ", ".toList readParameter? cs
  let cs ← strip? "): \x7b\n".toList cs
  let (methods, cs) := readMany Method.read? cs
  let cs ← strip? "        url: string;\n".toList cs
  let cs ← strip? "    \x7d;\n".toList cs
  if cs = "\x7d\n".toList then some (parameters, methods) else none

/-- Reads the text of an interface. -/
def Declaration.read? (text : String) : Option Declaration := do
  let cs ← strip? "export interface ".toList text.toList
  let (name, cs) := readName cs
  let (parameters, methods) ← readBody? cs
  return ⟨name, parameters, methods⟩

theorem readsBack_parameter {p : String} (h : isShaped p.toList = true) :
    ReadsBack readParameter? p (p ++ ": string | number").toList := by
  intro rest
  have hname := readName_append h (endsName_append (w := ": string | number".toList) rfl rest)
  unfold readParameter?
  simp only [String.toList_append, List.append_assoc, hname, strip?_append, Option.bind_eq_bind, Option.bind_some]
  rfl

/-- What an interface has behind its name. -/
def Declaration.body (d : Declaration) : String :=
  "<TResult> \x7b\n" ++ ("    (" ++ (", ".intercalate (d.parameters.map (· ++ ": string | number")) ++ ("): \x7b\n" ++
    (String.join (d.methods.map Method.render) ++ ("        url: string;\n" ++ ("    \x7d;\n" ++ "\x7d\n"))))))

theorem Declaration.render_eq (d : Declaration) : d.render = "export interface " ++ d.name ++ d.body := by
  unfold Declaration.render Declaration.body
  simp only [String.append_assoc]

/-- No method is read off the line of the URL. -/
theorem Method.read?_url (rest : List Char) : Method.read? ("        url: string;\n".toList ++ rest) = none := by
  have hline : "        url: string;\n".toList = "        ".toList ++ ("url".toList ++ ": string;\n".toList) := by
    decide
  have hurl : isShaped "url".toList = true := rfl
  have hname := readName_append hurl
    (endsName_append (w := ": string;\n".toList) rfl rest)
  have hdata : strip? ": (data?: ".toList (": string;\n".toList ++ rest) = none :=
    strip?_append_eq_none (by decide) rest
  unfold Method.read?
  simp only [hline, List.append_assoc, strip?_append, Option.bind_eq_bind, Option.bind_some, hname, hdata,
    Option.bind_none]

/-- No parameter is read off the end of a list of none. -/
theorem readParameter?_close (rest : List Char) : readParameter? ("): \x7b\n".toList ++ rest) = none := by
  have hname := readName_of_all (w := []) rfl (endsName_append (w := "): \x7b\n".toList) rfl rest)
  have htype : strip? ": string | number".toList ("): \x7b\n".toList ++ rest) = none :=
    strip?_append_eq_none (by decide) rest
  rw [List.nil_append] at hname
  unfold readParameter?
  simp only [hname, htype, Option.bind_eq_bind, Option.bind_none]

/-- The parameters and methods are read back, whatever the name before them. -/
theorem readBody?_body {d : Declaration} (hp : ∀ p ∈ d.parameters, isShaped p.toList = true)
    (hm : ∀ m ∈ d.methods, m.IsSafe) : readBody? d.body.toList = some (d.parameters, d.methods) := by
  have hmethods : ∀ rest, readMany Method.read?
      ((String.join (d.methods.map Method.render)).toList ++ ("        url: string;\n".toList ++ rest)) =
        (d.methods, "        url: string;\n".toList ++ rest) := by
    intro rest
    have hurl := Method.read?_url rest
    have hlines : ∀ m ∈ d.methods, ReadsBack Method.read? (id m) m.render.toList :=
      fun m h => Method.readsBack (hm m h)
    rw [String.toList_join, List.flatMap_map, readMany_flatMap hlines hurl, readMany_of_none hurl, List.map_id,
      List.append_nil]
  have hparameters : ∀ rest, readSeparated ", ".toList readParameter?
      ((", ".intercalate (d.parameters.map (· ++ ": string | number"))).toList ++ ("): \x7b\n".toList ++ rest)) =
        (d.parameters, "): \x7b\n".toList ++ rest) := by
    intro rest
    rw [String.toList_intercalate, List.map_map]
    exact readSeparated_intercalate (fun p h => readsBack_parameter (hp p h)) (fun _ => readParameter?_close rest)
      (strip?_append_eq_none (by decide) _)
  unfold readBody? Declaration.body
  simp only [String.toList_append, Option.bind_eq_bind, strip?_append, Option.bind_some, hparameters, hmethods, if_true]

/-- A safe declaration is read back from its text. -/
theorem Declaration.read?_render {d : Declaration} (h : d.IsSafe) : Declaration.read? d.render = some d := by
  have hends : endsName d.body.toList = true := by
    unfold Declaration.body
    rw [String.toList_append]
    exact endsName_append rfl _
  have hname := readName_append h.name hends
  unfold Declaration.read?
  simp only [Declaration.render_eq, String.toList_append, List.append_assoc, strip?_append, Option.bind_eq_bind,
    Option.bind_some, hname, readBody?_body h.parameters h.methods]
  rfl

/-- Interfaces with the same text have the same name, call parameters, and methods with the same fields: whatever the
names of fields are, all of it is read off the text. -/
theorem renderDeclaration_unambiguous (options : EmitOptions) {e : Endpoint} (h : isIdentifier e.name = true) :
    Declaration.read? (renderDeclaration options e) = some (Declaration.ofEndpoint options e) ∧
    ∀ (others : EmitOptions) (other : Endpoint), isIdentifier other.name = true →
      renderDeclaration options e = renderDeclaration others other →
        e.name = other.name ∧ callParameters e.pathParameters = callParameters other.pathParameters ∧
          (Declaration.ofEndpoint options e).methods = (Declaration.ofEndpoint others other).methods := by
  have hread : ∀ (options : EmitOptions) {e : Endpoint}, isIdentifier e.name = true →
      Declaration.read? (renderDeclaration options e) = some (Declaration.ofEndpoint options e) :=
    fun options e h => Declaration.read?_render (isSafe_ofEndpoint options (isIdentifier_iff.1 h).1)
  refine ⟨hread options h, fun others other hother heq => ?_⟩
  have hsame : Declaration.ofEndpoint options e = Declaration.ofEndpoint others other := by
    rw [← Option.some_inj, ← hread options h, heq, hread others hother]
  exact ⟨congrArg Declaration.name hsame, congrArg Declaration.parameters hsame, congrArg Declaration.methods hsame⟩

/-- An argument that is named like the end of a field with another behind it, of a verb in capitals or not. -/
theorem renderDeclaration_unambiguous_quoted :
    let a : Argument := ⟨"a': string; b?", .numeric, some true⟩
    let e : Endpoint := ⟨"items", "/{id}/{id}", ["id", "id"], [⟨"get", [], [a]⟩]⟩
    let other : Endpoint := ⟨"items", "/", ["id", "id"], [⟨"list", [], []⟩, ⟨"GET", [a], [a]⟩]⟩
    isIdentifier e.name = true ∧ isIdentifier other.name = true ∧ renderDeclaration {} e = renderDeclaration {} other ∧
      Declaration.read? (renderDeclaration {} e) =
        some ⟨"items", ["id", "id2"], [⟨"doGet", [⟨"a': string; b?", false, "number"⟩]⟩]⟩ ∧
      (Declaration.ofEndpoint {} e).methods = (Declaration.ofEndpoint {} other).methods := by
  intro a e other
  have he : isIdentifier e.name = true := by decide
  have hother : isIdentifier other.name = true := by decide
  have hdeclared : Declaration.ofEndpoint {} e =
      ⟨"items", ["id", "id2"], [⟨"doGet", [⟨"a': string; b?", false, "number"⟩]⟩]⟩ := by decide
  have hsame : Declaration.ofEndpoint {} e = Declaration.ofEndpoint {} other := by decide
  have htext : renderDeclaration {} e = renderDeclaration {} other := congrArg Declaration.render hsame
  obtain ⟨hread, hinj⟩ := renderDeclaration_unambiguous {} he
  exact ⟨he, hother, htext, by rw [hread, hdeclared], (hinj {} other hother htext).2.2⟩

end ResourceClient.TypeScript
