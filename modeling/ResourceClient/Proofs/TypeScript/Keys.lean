/-
The fields on the line of a method. The key of a field is its name, or a single-quoted literal of it when the name has
not the shape of an identifier. The field is then a property of this name and of no other, and stays on the line of its
method, exactly when the name has no line break.
-/
import ResourceClient.Proofs.TypeScript.DeclarationText
import ResourceClient.Proofs.TypeScript.Literals
import ResourceClient.Proofs.TypeScript.Marks

namespace ResourceClient.TypeScript

open Text

/-! ## Keys -/

/-- What names a property of an object type, and the value of the name. -/
inductive Key (text : String) : List Nat → Prop
  | identifier (h : isShaped text.toList = true) : Key text (utf16 text.toList)
  | literal {quote : Char} {value : List Nat} (hq : quote = '\x27' ∨ quote = '\x22') (h : IsLiteral quote text value) :
      Key text value

/-- A property of an object type: its key, whether it may be absent, and its type. -/
def IsProperty (text : String) (value : List Nat) (optional : Bool) (type : String) : Prop :=
  ∃ key, Key key value ∧ text = key ++ ((if optional then "?" else "") ++ (": " ++ type))

section

variable {name type : String} {value : List Nat} {optional : Bool} {f : Field}

theorem isNameChar_quote {quote : Char} (h : quote = '\x27' ∨ quote = '\x22') : isNameChar quote = false := by
  rcases h with rfl | rfl <;> decide

theorem key_propertyName (h : IsLine name) : Key (propertyName name) (utf16 name.toList) := by
  unfold propertyName
  split
  · rename_i hname
    exact .identifier hname
  · exact .literal (.inl rfl) (isLiteral_quoted_iff.2 ⟨h, rfl⟩)

/-- A key at the head of a text that begins with the one made of a name. -/
theorem Key.of_propertyName {key : String} {rest more : List Char} (h : Key key value) (hrest : endsName rest = true)
    (hmore : endsName more = true) (ht : key.toList ++ rest = (propertyName name).toList ++ more) :
    IsLine name ∧ value = utf16 name.toList ∧ rest = more := by
  unfold propertyName at ht
  split at ht
  · rename_i hname
    cases h with
    | identifier hkey =>
      have hread := readName_append hkey hrest
      rw [ht, readName_append hname hmore] at hread
      obtain ⟨rfl, rfl⟩ := Prod.mk.inj hread
      exact ⟨isLine_of_isShaped hname, rfl, rfl⟩
    | literal hq h =>
      obtain ⟨cs, htext, -⟩ := h
      rw [htext] at ht
      exact absurd ht.symm (isShaped_append_ne hname (isNameChar_quote hq) _ _)
  · rw [String.toList_ofList] at ht
    cases h with
    | identifier hkey => exact absurd ht (isShaped_append_ne hkey (by decide) _ _)
    | literal hq h =>
      obtain ⟨cs, htext, hbody⟩ := h
      rw [htext, List.cons_append, List.cons_append, List.append_assoc, List.append_assoc] at ht
      obtain ⟨rfl, htail⟩ := List.cons.inj ht
      exact hbody.of_quoted htail

/-! ## Fields -/

theorem endsName_tail (optional : Bool) (type : String) :
    endsName ((if optional then "?" else "") ++ (": " ++ type)).toList = true := by
  rw [String.toList_append, String.toList_append]
  cases optional <;> rfl

theorem tail_injective {o o' : Bool} {t t' : String}
    (h : ((if o then "?" else "") ++ (": " ++ t)).toList = ((if o' then "?" else "") ++ (": " ++ t')).toList) :
    o = o' ∧ t = t' := by
  have htext := String.toList_injective h
  cases o <;> cases o'
  · exact ⟨rfl, by simpa using htext⟩
  · have hhead := congrArg List.head? h
    simp [String.toList_append] at hhead
  · have hhead := congrArg List.head? h
    simp [String.toList_append] at hhead
  · exact ⟨rfl, by simpa using htext⟩

/-- The text of a field is a property of nothing but its name, and of this only if it has no line break. -/
theorem isProperty_render_iff :
    IsProperty f.render value optional type ↔
      IsLine f.name ∧ value = utf16 f.name.toList ∧ optional = f.optional ∧ type = f.type := by
  have hrender : f.render = propertyName f.name ++ ((if f.optional then "?" else "") ++ (": " ++ f.type)) := by
    rw [Field.render, String.append_assoc, String.append_assoc]
  rw [IsProperty, hrender]
  constructor
  · rintro ⟨key, hkey, ht⟩
    have hchars : key.toList ++ ((if optional then "?" else "") ++ (": " ++ type)).toList =
        (propertyName f.name).toList ++ ((if f.optional then "?" else "") ++ (": " ++ f.type)).toList := by
      rw [← String.toList_append, ← String.toList_append, ht]
    obtain ⟨hname, hvalue, htail⟩ := hkey.of_propertyName (endsName_tail _ _) (endsName_tail _ _) hchars
    obtain ⟨hoptional, htype⟩ := tail_injective htail
    exact ⟨hname, hvalue, hoptional, htype⟩
  · rintro ⟨hname, rfl, rfl, rfl⟩
    exact ⟨_, key_propertyName hname, rfl⟩

/-! ## Lines of methods -/

theorem isLine_propertyName : IsLine (propertyName name) ↔ IsLine name := by
  unfold propertyName
  split
  · rfl
  · unfold IsLine
    rw [String.toList_ofList]
    constructor
    · intro h c hc
      refine h c (List.mem_cons_of_mem _ (List.mem_append_left _ (List.mem_flatMap.2 ⟨c, hc, ?_⟩)))
      unfold quoteChar
      split <;> simp
    · intro h c hc
      rcases List.mem_cons.1 hc with rfl | hc
      · decide
      · rcases List.mem_append.1 hc with hc | hc
        · obtain ⟨d, hd, hcd⟩ := List.mem_flatMap.1 hc
          have hwritten : c = '\\' ∨ c = d := by
            unfold quoteChar at hcd
            split at hcd <;> simp at hcd <;> tauto
          rcases hwritten with rfl | rfl
          · decide
          · exact h c hd
        · rw [List.mem_singleton.1 hc]
          decide

theorem isLine_intercalate {sep : String} (hsep : IsLine sep) (ss : List String) :
    IsLine (sep.intercalate ss) ↔ ∀ s ∈ ss, IsLine s := by
  induction ss with
  | nil => exact iff_of_true (by rw [String.intercalate_nil]; decide) fun _ hs => nomatch hs
  | cons s ss ih =>
    cases ss with
    | nil => rw [String.intercalate_singleton, List.forall_mem_singleton]
    | cons t ss =>
      rw [String.intercalate_cons_cons, isLine_append, isLine_append, ih, List.forall_mem_cons (a := s), and_assoc]
      exact and_congr_right fun _ => and_iff_right hsep

theorem isLine_render (h : ∃ t : ArgumentType, f.type = t.typescript) : IsLine f.render ↔ IsLine f.name := by
  obtain ⟨t, ht⟩ := h
  have hmark : IsLine (if f.optional then "?" else "") := by split <;> decide
  have hcolon : IsLine ": " := by decide
  have htype : IsLine f.type := by rw [ht]; cases t <;> decide
  rw [Field.render, isLine_append, isLine_append, isLine_append, isLine_propertyName]
  exact ⟨fun hr => hr.1.1.1, fun hn => ⟨⟨⟨hn, hmark⟩, hcolon⟩, htype⟩⟩

end

section

variable {m : Method} {f : Field}

theorem isLine_dataType (h : m.IsSafe) : IsLine m.dataType ↔ ∀ f ∈ m.fields, IsLine f.name := by
  unfold Method.dataType
  split
  · rename_i hnil
    rw [List.isEmpty_iff.1 hnil]
    exact iff_of_true (by decide) fun _ hf => nomatch hf
  · have hopen : IsLine "\x7b " := by decide
    have hclose : IsLine " \x7d" := by decide
    rw [isLine_append, isLine_append, isLine_intercalate (by decide), List.forall_mem_map]
    have hfields : (∀ f ∈ m.fields, IsLine f.render) ↔ ∀ f ∈ m.fields, IsLine f.name :=
      forall₂_congr fun f hf => isLine_render (h.types f hf)
    exact ⟨fun hd => hfields.1 hd.1.2, fun hf => ⟨⟨hopen, hfields.2 hf⟩, hclose⟩⟩

theorem isLine_line (h : m.IsSafe) : IsLine m.line ↔ ∀ f ∈ m.fields, IsLine f.name := by
  have hindent : IsLine "        " := by decide
  have hdata : IsLine ": (data?: " := by decide
  have hrest : IsLine ", options?: any) => TResult;" := by decide
  rw [Method.line, isLine_append, isLine_append, isLine_append, isLine_append, isLine_dataType h]
  exact ⟨fun hl => hl.1.2, fun hf => ⟨⟨⟨⟨hindent, isLine_of_isShaped h.name⟩, hdata⟩, hf⟩, hrest⟩⟩

theorem infix_intercalate (sep : String) {s : String} {ss : List String} (h : s ∈ ss) :
    ∃ before after, sep.intercalate ss = before ++ s ++ after := by
  induction ss with
  | nil => cases h
  | cons t ss ih =>
    cases ss with
    | nil =>
      rw [List.mem_singleton.1 h, String.intercalate_singleton]
      exact ⟨"", "", by simp⟩
    | cons u ss =>
      rw [String.intercalate_cons_cons]
      rcases List.mem_cons.1 h with rfl | h
      · exact ⟨"", sep ++ sep.intercalate (u :: ss), by simp [String.append_assoc]⟩
      · obtain ⟨before, after, hrest⟩ := ih h
        exact ⟨t ++ sep ++ before, after, by rw [hrest]; simp only [String.append_assoc]⟩

theorem infix_line (hf : f ∈ m.fields) : ∃ before after, m.line = before ++ f.render ++ after := by
  obtain ⟨before, after, h⟩ := infix_intercalate "; " (List.mem_map_of_mem (f := Field.render) hf)
  have hne : m.fields.isEmpty = false := by
    rw [Bool.eq_false_iff]
    intro hnil
    rw [List.isEmpty_iff.1 hnil] at hf
    cases hf
  refine ⟨"        " ++ m.name ++ ": (data?: " ++ "\x7b " ++ before, after ++ " \x7d" ++ ", options?: any) => TResult;", ?_⟩
  rw [Method.line, Method.dataType, hne, if_neg Bool.false_ne_true, h]
  simp only [String.append_assoc]

end

/-! ## Declarations -/

/-- The line of each method is one of those that the text of an interface is put together from. -/
theorem exists_line_render {d : Declaration} {m : Method} (hm : m ∈ d.methods) :
    ∃ before after, d.render = unlines (before ++ m.line :: after) := by
  have hline : m.line ∈ d.lines :=
    List.mem_append_left _ (List.mem_append_right _ (List.mem_map_of_mem hm))
  obtain ⟨before, after, hlines⟩ := List.append_of_mem hline
  exact ⟨before, after, by rw [render_eq_unlines, hlines]⟩

/-- The fields of a method are the data of one of the operations. -/
theorem names_of_mem_methods {options : EmitOptions} {e : Endpoint} {m : Method}
    (h : m ∈ (Declaration.ofEndpoint options e).methods) :
    ∃ o ∈ e.operations, m.fields.map Field.name = o.dataArguments.map Argument.name := by
  obtain ⟨o, ho, hmethod⟩ := List.mem_filterMap.1 (mem_firstOfName h)
  obtain ⟨v, -, rfl⟩ := Option.map_eq_some_iff.1 hmethod
  refine ⟨o, ho, ?_⟩
  rw [List.map_map]
  rfl

/-- The key of a name is the name, or a literal that has the name as its value if and only if the name has no line
break. In the text of an interface each method has a line, which stays one line if none of its fields is of a name with
a line break, and each field of a name without one is a property of just this name. -/
theorem keys_renderDeclaration (options : EmitOptions) (e : Endpoint) :
    (∀ name, if isShaped name.toList = true then propertyName name = name
      else ∀ value, IsLiteral '\x27' (propertyName name) value ↔ IsLine name ∧ value = utf16 name.toList) ∧
    ∀ m ∈ (Declaration.ofEndpoint options e).methods,
      (∃ o ∈ e.operations, m.fields.map Field.name = o.dataArguments.map Argument.name) ∧
      (∃ before after, renderDeclaration options e = unlines (before ++ m.line :: after)) ∧
      (IsLine m.line ↔ ∀ f ∈ m.fields, IsLine f.name) ∧
      ∀ f ∈ m.fields, (∃ before after, m.line = before ++ f.render ++ after) ∧
        ∀ value optional type, IsProperty f.render value optional type ↔
          IsLine f.name ∧ value = utf16 f.name.toList ∧ optional = f.optional ∧ type = f.type := by
  constructor
  · intro name
    split
    · rename_i hname
      exact if_pos hname
    · rename_i hname
      intro value
      rw [propertyName, if_neg hname]
      exact isLiteral_quoted_iff
  · intro m hm
    have hsafe := isSafe_of_mem_methods hm
    exact ⟨names_of_mem_methods hm, exists_line_render hm, isLine_line hsafe,
      fun f hf => ⟨infix_line hf, fun _ _ _ => isProperty_render_iff⟩⟩

/-- A quote in a name. -/
theorem keys_renderDeclaration_quote :
    let e : Endpoint := ⟨"pets", "/pets", [], [⟨"post", [], [⟨"it's", .string, some true⟩, ⟨"tag", .array, none⟩]⟩]⟩
    let m : Method := ⟨"doPost", [⟨"it's", false, "string"⟩, ⟨"tag", true, "any[]"⟩]⟩
    m ∈ (Declaration.ofEndpoint {} e).methods ∧ IsLine m.line ∧
      IsProperty "'it\\'s': string" (utf16 "it's".toList) false "string" := by
  intro e m
  have hm : m ∈ (Declaration.ofEndpoint {} e).methods := by decide
  obtain ⟨-, -, hline, hfields⟩ := (keys_renderDeclaration {} e).2 m hm
  have hproperty := (hfields ⟨"it's", false, "string"⟩ List.mem_cons_self).2 (utf16 "it's".toList) false "string"
  have hrender : Field.render ⟨"it's", false, "string"⟩ = "'it\\'s': string" := by decide
  rw [hrender] at hproperty
  exact ⟨hm, hline.2 (by decide), hproperty.2 ⟨by decide, rfl, rfl, rfl⟩⟩

/-- A line feed stands in the key as it is, and no literal can have one; with double quotes it would be escaped. -/
theorem not_isLiteral_line_feed :
    let e : Endpoint := ⟨"pets", "/pets", [], [⟨"post", [], [⟨"a\nb", .string, some true⟩]⟩]⟩
    let m : Method := ⟨"doPost", [⟨"a\nb", false, "string"⟩]⟩
    isShaped "a\nb".toList = false ∧ propertyName "a\nb" = "'a\nb'" ∧
      (∀ value, ¬IsLiteral '\x27' (propertyName "a\nb") value) ∧
      m ∈ (Declaration.ofEndpoint {} e).methods ∧ ¬IsLine m.line ∧
      IsLiteral '\x22' (Quoted.encode "a\nb") (utf16 "a\nb".toList) := by
  intro e m
  have hname : ¬IsLine "a\nb" := by decide
  have hm : m ∈ (Declaration.ofEndpoint {} e).methods := by decide
  refine ⟨by decide, by decide, fun value h => ?_, hm, fun hl => ?_, isLiteral_encode _⟩
  · rw [propertyName, if_neg (by decide)] at h
    exact hname (isLiteral_quoted_iff.1 h).1
  · exact hname ((isLine_line (isSafe_of_mem_methods hm)).1 hl _ List.mem_cons_self)

end ResourceClient.TypeScript
