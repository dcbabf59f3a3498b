/-
What each generated part mentions. The names and texts that come from a source are one word or one literal each,
so they bring in no mention but those of the endpoint's own name; all else is fixed text.
-/
import ResourceClient.Proofs.Text.Quoted
import ResourceClient.Proofs.TypeScript.Lexemes
import ResourceClient.Proofs.TypeScript.Lines
import ResourceClient.Proofs.TypeScript.Names
import ResourceClient.TypeScript.Member
import ResourceClient.TypeScript.Shared

namespace ResourceClient.TypeScript

open Text

/-! ## Literals -/

theorem run_encodeChar (c : Char) :
    Lexing.run (.literal '\x22') (Quoted.encodeChar c) = (.literal '\x22', []) := by
  unfold Quoted.encodeChar
  split_ifs with hquote hslash
  · rfl
  · rfl
  · rfl
  · rfl
  · rfl
  · rfl
  · rfl
  · rename_i hlow
    have h1 := Quoted.digitChar_unescaped (c.toNat / 16) (by omega)
    have h2 := Quoted.digitChar_unescaped (c.toNat % 16) (by omega)
    rw [Lexing.run_escaped, Lexing.run_unescaped (by decide) (by decide), Lexing.run_unescaped (by decide) (by decide),
      Lexing.run_unescaped h1.1 h1.2, Lexing.run_unescaped h2.1 h2.2]
    rfl
  · rw [Lexing.run_unescaped hslash hquote]
    rfl

theorem reads_encode (s : String) : Reads (Quoted.encode s) [.literal] :=
  .literal (by decide) (by decide) run_encodeChar s.toList

theorem run_quoteChar (c : Char) : Lexing.run (.literal '\x27') (quoteChar c) = (.literal '\x27', []) := by
  unfold quoteChar
  split
  · rfl
  · rename_i hc
    rw [Lexing.run_unescaped (fun h => hc (.inl h)) (fun h => hc (.inr h))]
    rfl

theorem finds_propertyName {c : Char} {cs : List Char} {ms : List Mention} (name : String)
    (hc : Lexing.inCode c = (.code, [.mark c])) (hm : c ≠ '(' ∧ c ≠ '.') (h : mentionsOf? (c :: cs) = some ms) :
    Finds (propertyName name ++ String.ofList (c :: cs)) ms := by
  unfold propertyName
  split
  · rename_i hname
    exact .name hname hc hm h
  · have hl := Finds.of_reads (.literal (by decide) (by decide) run_quoteChar name.toList) rfl rfl
    exact hl.append (.ofList h)

/-! ## Interfaces of endpoints -/

theorem finds_typescript (t : ArgumentType) : Finds (t.typescript ++ "; ") [] ∧ Finds (t.typescript ++ " \x7d") [] := by
  cases t <;> unfold ArgumentType.typescript <;>
    rw [← String.ofList_append, ← String.ofList_append] <;>
    exact ⟨.ofList (by rfl), .ofList (by rfl)⟩

theorem finds_field {f : Field} {t : ArgumentType} (ht : f.type = t.typescript) :
    Finds (f.render ++ "; ") [] ∧ Finds (f.render ++ " \x7d") [] := by
  have hname : Finds (propertyName f.name ++ (if f.optional then "?" else "") ++ ": ") [] := by
    have hcolon : Finds ": " [] := .ofList (by decide)
    split
    · have hmark : Finds (propertyName f.name ++ "?") [] :=
        finds_propertyName f.name (by decide) (by decide) (by decide)
      exact hmark.append hcolon
    · rw [String.append_empty]
      exact finds_propertyName f.name (by decide) (by decide) (by decide)
  have hsep := hname.append (finds_typescript t).1
  have hend := hname.append (finds_typescript t).2
  rw [← String.append_assoc, ← ht] at hsep hend
  exact ⟨hsep, hend⟩

/-- A method whose name is no text of a source, and whose fields have types that arguments may have. -/
structure Method.IsSafe (m : Method) : Prop where
  name : isShaped m.name.toList = true
  types : ∀ f ∈ m.fields, ∃ t : ArgumentType, f.type = t.typescript

theorem finds_dataType {m : Method} (h : m.IsSafe) : Finds m.dataType [] := by
  unfold Method.dataType
  split
  · exact .ofList (by decide)
  · have hopen : Finds "\x7b " [] := .ofList (by decide)
    have hclose : Finds " \x7d" [] := .ofList (by decide)
    rw [String.append_assoc]
    refine hopen.append (.intercalate hclose fun s hs => ?_)
    obtain ⟨f, hf, rfl⟩ := List.mem_map.1 hs
    obtain ⟨t, ht⟩ := h.types f hf
    exact finds_field ht

theorem finds_method {m : Method} (h : m.IsSafe) : Finds m.render [] := by
  have hindent : Finds "        " [] := .ofList (by decide)
  have hname : Finds (m.name ++ ": (data?: ") [] := .name h.name (by decide) (by decide) (by rfl)
  have hrest : Finds ", options?: any) => TResult;\n" [] := .ofList (by rfl)
  have hall := ((hindent.append hname).append (finds_dataType h)).append hrest
  rw [← String.append_assoc] at hall
  exact hall

/-- A declaration of names that are identifiers, with safe methods. -/
structure Declaration.IsSafe (d : Declaration) : Prop where
  name : isShaped d.name.toList = true
  parameters : ∀ p ∈ d.parameters, isShaped p.toList = true
  methods : ∀ m ∈ d.methods, m.IsSafe

/-- The text of a safe declaration exports its name, and mentions no other. -/
theorem finds_declaration {d : Declaration} (h : d.IsSafe) : Finds d.render [.exported d.name] := by
  have hhead : Finds ("export interface " ++ (d.name ++ "<TResult> \x7b\n")) [.exported d.name] := by
    have hexport : Reads "export interface " [.word "export", .word "interface"] := .ofList (by rfl)
    have hname : Reads (d.name ++ "<TResult> \x7b\n")
        [.word d.name, .mark '<', .word "TResult", .mark '>', .mark '\x7b'] :=
      .name h.name (by decide) (by rfl)
    exact .of_reads (hexport.append hname) rfl (by simp [mentions, mention?])
  have hopen : Finds "    (" [] := .ofList (by decide)
  have hclose : Finds "): \x7b\n" [] := .ofList (by decide)
  have hparameters : Finds (", ".intercalate (d.parameters.map (· ++ ": string | number")) ++ "): \x7b\n") [] := by
    refine .intercalate hclose fun s hs => ?_
    obtain ⟨p, hp, rfl⟩ := List.mem_map.1 hs
    rw [String.append_assoc, String.append_assoc, ← String.ofList_append, ← String.ofList_append]
    exact ⟨.name (h.parameters p hp) (by decide) (by decide) (by rfl),
      .name (h.parameters p hp) (by decide) (by decide) (by rfl)⟩
  have hmethods : Finds (String.join (d.methods.map Method.render)) [] :=
    .join_silent fun m hm => finds_method (h.methods m hm)
  have hurl : Finds "        url: string;\n" [] := .ofList (by rfl)
  have hend : Finds "    \x7d;\n" [] := .ofList (by decide)
  have hlast : Finds "\x7d\n" [] := .ofList (by decide)
  have hall := hhead.append (hopen.append (hparameters.append (hmethods.append (hurl.append (hend.append hlast)))))
  unfold Declaration.render
  -- the fixed texts side by side are left apart
  simpa only [String.append_assoc, -String.reduceAppend, List.append_nil] using hall

theorem mem_firstOfName {seen : List String} {ms : List Method} {m : Method} (h : m ∈ firstOfName seen ms) : m ∈ ms := by
  induction ms generalizing seen with
  | nil => cases h
  | cons k ms ih =>
    unfold firstOfName at h
    split at h
    · exact List.mem_cons_of_mem _ (ih h)
    · rcases List.mem_cons.1 h with rfl | h
      · exact List.mem_cons_self
      · exact List.mem_cons_of_mem _ (ih h)

/-- Only the operations of known verbs have methods, so that the names of methods are those of the verbs. -/
theorem isSafe_ofOperation? {options : EmitOptions} {o : Operation} {m : Method}
    (h : Method.ofOperation? options o = some m) : m.IsSafe := by
  unfold Method.ofOperation? at h
  obtain ⟨v, hv, rfl⟩ := Option.map_eq_some_iff.1 h
  constructor
  · show isShaped o.methodName.toList = true
    rw [methodName_of_verb? hv]
    cases v <;> decide +kernel
  · intro f hf
    obtain ⟨a, -, rfl⟩ := List.mem_map.1 hf
    exact ⟨a.type, rfl⟩

theorem isSafe_of_mem_methods {options : EmitOptions} {e : Endpoint} {m : Method}
    (h : m ∈ (Declaration.ofEndpoint options e).methods) : m.IsSafe := by
  obtain ⟨o, -, ho⟩ := List.mem_filterMap.1 (mem_firstOfName h)
  exact isSafe_ofOperation? ho

theorem isSafe_ofEndpoint (options : EmitOptions) {e : Endpoint} (h : isShaped e.name.toList = true) :
    (Declaration.ofEndpoint options e).IsSafe where
  name := h
  parameters := isShaped_callParameters e.pathParameters
  methods := fun _ => isSafe_of_mem_methods

/-! ## Members -/

/-- The type that the field of an endpoint takes from the interfaces file. -/
def memberType (name : String) (typed : Bool) : String :=
  if typed then name else "TaffyResourceFactory"

theorem reads_renderField {e : Endpoint} (h : isShaped e.name.toList = true) (typed : Bool) :
    Reads (renderField e typed)
      [.word "readonly", .word e.name, .mark ':', .word "Interfaces", .mark '.', .word (memberType e.name typed),
        .mark '<', .word "TResult", .mark '>', .mark ';'] := by
  have htype : isShaped (memberType e.name typed).toList = true := by
    unfold memberType
    split
    · exact h
    · decide +kernel
  have hstart : Reads "readonly " [.word "readonly"] := .ofList (by rfl)
  have hname : Reads (e.name ++ ": Interfaces.") [.word e.name, .mark ':', .word "Interfaces", .mark '.'] :=
    .name h (by decide) (by rfl)
  have hlast : Reads (memberType e.name typed ++ "<TResult>;")
      [.word (memberType e.name typed), .mark '<', .word "TResult", .mark '>', .mark ';'] :=
    .name htype (by decide) (by rfl)
  have hall := hstart.append (hname.append hlast)
  rw [← String.append_assoc, ← String.append_assoc, ← String.append_assoc] at hall
  exact hall

theorem finds_renderField {e : Endpoint} (h : isShaped e.name.toList = true) (typed : Bool) :
    Finds (renderField e typed) [.member e.name, .used (memberType e.name typed)] :=
  .of_reads (reads_renderField h typed) rfl (by simp [mentions, mention?])

theorem reads_renderRegistration {e : Endpoint} (h : isShaped e.name.toList = true) :
    Reads (renderRegistration e)
      [.word "this", .mark '.', .word e.name, .mark '=', .word "create", .mark '<', .word "TResult", .mark '>',
        .mark '(', .word "transport", .mark ',', .literal, .mark ')', .mark ';'] := by
  have hstart : Reads "this." [.word "this", .mark '.'] := .ofList (by rfl)
  have hname : Reads (e.name ++ " = create<TResult>(transport, ")
      [.word e.name, .mark '=', .word "create", .mark '<', .word "TResult", .mark '>', .mark '(', .word "transport",
        .mark ','] :=
    .name h (by decide) (by rfl)
  have hend : Reads ");" [.mark ')', .mark ';'] := .ofList (by rfl)
  have hall := ((hstart.append hname).append (reads_encode (Template.clean e.uriTemplate))).append hend
  rw [← String.append_assoc] at hall
  exact hall

theorem finds_renderRegistration {e : Endpoint} (h : isShaped e.name.toList = true) :
    Finds (renderRegistration e) [] :=
  .of_reads (reads_renderRegistration h) rfl (by simp [mentions, mention?])

/-! ## Fixed texts

A fixed text is read character by character. It is given as its list of characters, which unification finds for
each literal, because reading `String.toList` of a literal is slow. -/

theorem unlines_cons (line : String) (lines : List String) : unlines (line :: lines) = line ++ "\n" ++ unlines lines :=
  String.join_cons

theorem unlines_ofList (css : List (List Char)) :
    unlines (css.map String.ofList) = String.ofList (css.flatMap (· ++ ['\n'])) := by
  induction css with
  | nil => rfl
  | cons cs css ih =>
    rw [List.map_cons, unlines_cons, ih, List.flatMap_cons, String.ofList_append, String.ofList_append]

/-- Lines for the verbs that mention nothing, between fixed lines. -/
theorem finds_lines {before after : List (List Char)} {ma mb : List Mention} {line : Verb → String}
    (hbefore : mentionsOf? (before.flatMap (· ++ ['\n'])) = some ma) (hline : ∀ v, Finds (line v ++ "\n") [])
    (hafter : mentionsOf? (after.flatMap (· ++ ['\n'])) = some mb) :
    Finds (unlines (before.map String.ofList ++ Verb.all.map line ++ after.map String.ofList)) (ma ++ mb) := by
  have hverbs : Finds (unlines (Verb.all.map line)) [] := by
    unfold unlines
    rw [List.map_map]
    exact .join_silent fun v _ => hline v
  rw [unlines_append, unlines_append, unlines_ofList, unlines_ofList]
  have hall := ((Finds.ofList hbefore).append hverbs).append (.ofList hafter)
  rwa [List.append_nil] at hall

theorem finds_transportMethod (v : Verb) : Finds (transportMethod v ++ "\n") [] := by
  cases v <;> unfold transportMethod Verb.name Verb.sendsBody <;>
    simp only [Bool.false_eq_true, if_true, if_false, -String.reduceAppend] <;>
    repeat rw [← String.ofList_append]
  all_goals exact .ofList (by rfl)

theorem finds_resourceMethod (v : Verb) : Finds (resourceMethod v ++ "\n") [] := by
  cases v <;> unfold resourceMethod Verb.proxyMethod <;> repeat rw [← String.ofList_append]
  all_goals exact .ofList (by rfl)

set_option maxRecDepth 4000 in
theorem finds_createdMethod (v : Verb) : Finds (createdMethod v ++ "\n") [] := by
  cases v <;> unfold createdMethod Verb.proxyMethod Verb.name Verb.sendsBody <;>
    simp only [Bool.false_eq_true, if_true, if_false, -String.reduceAppend] <;>
    repeat rw [← String.ofList_append]
  all_goals exact .ofList (by rfl)

theorem finds_transportDeclaration : Finds transportDeclaration [.exported "TaffyHttpClientProvider"] :=
  @finds_lines [_] [_] [_] [] _ (by rfl) finds_transportMethod (by decide)

set_option maxRecDepth 4000 in
theorem finds_resourceTypes :
    Finds resourceTypes [.exported "TaffyResource", .exported "TaffyResourceFactory"] := by
  unfold resourceTypes
  rw [← String.ofList_append]
  exact @finds_lines [_] [_, _, _, _] [_] [_] _ (by rfl) finds_resourceMethod (by rfl)

set_option maxRecDepth 4000 in
theorem finds_sharedFunctions : Finds sharedFunctions
    [.used "TaffyHttpClientProvider", .used "TaffyResourceFactory", .used "TaffyResource"] :=
  @finds_lines [_, _, _, _, _, _, _] [_, _, _, _, _, _, _, _, _, _, _, _, _, _, _, _, _, _, _, _, _] [_, _, _] [] _
    (by rfl) finds_createdMethod (by rfl)

end ResourceClient.TypeScript
