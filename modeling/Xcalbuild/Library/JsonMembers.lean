/-
**Where the members of a parsed object come from.**

A member of an object that has a string as its value is written as the key, a colon and the string,
one after the other (`Adjacent`). The invariant `ParseState.Traced` says so of everything that the
parser has on its stack; `parseStep_traced` is its step and `parse_adjacent` what is left of it at
the end, for the objects in an array.

* `adjacent_split`: a token that is no string and no colon separates adjacent tokens.
-/
import Xcalbuild.Library.JsonText

namespace Xcalbuild.Library.Json

/-- The key, a colon and the string, next to each other. -/
def Adjacent (tokens : List Token) (key value : Str) : Prop :=
  [.string key, .colon, .string value] <:+: tokens

theorem Adjacent.append {tokens : List Token} {key value : Str} (adjacent : Adjacent tokens key value)
    (more : List Token) : Adjacent (tokens ++ more) key value :=
  adjacent.trans (List.prefix_append tokens more).isInfix

/-! ### Separators -/

/-- A list without a separator is on one side of it. -/
theorem infix_split {α : Type} {l front back : List α} {separator : α} (absent : separator ∉ l)
    (inside : l <:+: front ++ separator :: back) : l <:+: front ∨ l <:+: back := by
  induction front with
  | nil =>
    rcases List.infix_cons_iff.mp inside with start | later
    · cases l with
      | nil => exact Or.inl List.nil_infix
      | cons a rest =>
        obtain ⟨tail, same⟩ := start
        cases same
        exact absurd List.mem_cons_self absent
    · exact Or.inr later
  | cons a front ih =>
    rcases List.infix_cons_iff.mp inside with start | later
    · have whole : a :: front <+: a :: (front ++ separator :: back) :=
        List.prefix_append (a :: front) (separator :: back)
      rcases List.prefix_or_prefix_of_prefix start whole with short | long
      · exact Or.inl short.isInfix
      · obtain ⟨tail, rfl⟩ := long
        cases tail with
        | nil => exact Or.inl (by simp)
        | cons b tail =>
          obtain ⟨rest, same⟩ := start
          simp at same
          obtain ⟨rfl, -⟩ := same
          exact absurd (by simp) absent
    · rcases ih later with first | second
      · exact Or.inl (first.trans (List.suffix_cons a front).isInfix)
      · exact Or.inr second

/-- A token that is neither a string nor a colon. -/
def Token.separates : Token → Bool
  | .string _ => false
  | .colon => false
  | _ => true

theorem adjacent_split {front back : List Token} {separator : Token} {key value : Str}
    (separates : separator.separates = true)
    (adjacent : Adjacent (front ++ separator :: back) key value) :
    Adjacent front key value ∨ Adjacent back key value := by
  refine infix_split ?_ adjacent
  intro member
  simp only [List.mem_cons, List.not_mem_nil, or_false] at member
  rcases member with rfl | rfl | rfl <;> cases separates

theorem adjacent_of_separator {back : List Token} {separator : Token} {key value : Str}
    (separates : separator.separates = true) (adjacent : Adjacent (separator :: back) key value) :
    Adjacent back key value := by
  rcases @adjacent_split [] back separator key value separates adjacent with nothing | later
  · have long := nothing.length_le
    simp at long
  · exact later

/-! ### The parser -/

/-- The members with string values are in the tokens. -/
def MembersIn (tokens : List Token) (members : List (Str × Json)) : Prop :=
  ∀ key value, (key, .str value) ∈ members → Adjacent tokens key value

/-- The members of the objects in the list are in the tokens. -/
def ElemsIn (tokens : List Token) (elems : List Json) : Prop :=
  ∀ members, .obj members ∈ elems → MembersIn tokens members

def Traced (tokens : List Token) : Json → Prop
  | .obj members => MembersIn tokens members
  | .arr elems => ElemsIn tokens elems
  | _ => True

def Frame.Traced (tokens : List Token) : Frame → Prop
  | .array elems => ElemsIn tokens elems
  | .object members _ => MembersIn tokens members

/-- A value that comes next is the value of the member whose key was read last. -/
def KeyRead (tokens : List Token) : List Frame → Prop
  | .object _ key :: _ => [.string key, .colon] <:+ tokens
  | _ => True

/-- **What the parser has read is in the tokens.** -/
def ParseState.Traced (tokens : List Token) : ParseState → Prop
  | .value stack => (∀ frame ∈ stack, frame.Traced tokens) ∧ KeyRead tokens stack
  | .firstElem stack => ∀ frame ∈ stack, frame.Traced tokens
  | .firstKey stack => ∀ frame ∈ stack, frame.Traced tokens
  | .key stack members => (∀ frame ∈ stack, frame.Traced tokens) ∧ MembersIn tokens members
  | .colon stack members name =>
      (∀ frame ∈ stack, frame.Traced tokens) ∧ MembersIn tokens members ∧
        [.string name] <:+ tokens
  | .after frame stack => frame.Traced tokens ∧ ∀ frame ∈ stack, frame.Traced tokens
  | .done result => Json.Traced tokens result

section Step

variable {tokens : List Token}

theorem MembersIn.append {members : List (Str × Json)} (inside : MembersIn tokens members)
    (more : List Token) : MembersIn (tokens ++ more) members :=
  fun key value member => (inside key value member).append more

theorem ElemsIn.append {elems : List Json} (inside : ElemsIn tokens elems) (more : List Token) :
    ElemsIn (tokens ++ more) elems :=
  fun members member => (inside members member).append more

theorem frames_append {stack : List Frame} (traced : ∀ frame ∈ stack, frame.Traced tokens)
    (more : List Token) : ∀ frame ∈ stack, frame.Traced (tokens ++ more) := by
  intro frame member
  have inside := traced frame member
  cases frame with
  | array elems => exact ElemsIn.append inside more
  | object members key => exact MembersIn.append inside more

/-- A value that is not a string, or is next to its key. -/
def Placed (tokens : List Token) (stack : List Frame) (value : Json) : Prop :=
  ∀ members key rest s, stack = .object members key :: rest → value = .str s →
    Adjacent tokens key s

theorem complete_traced {stack : List Frame} {value : Json}
    (frames : ∀ frame ∈ stack, frame.Traced tokens) (traced : Json.Traced tokens value)
    (placed : Placed tokens stack value) : (complete stack value).Traced tokens := by
  cases stack with
  | nil => exact traced
  | cons frame stack =>
    have inside := frames frame List.mem_cons_self
    have others : ∀ frame ∈ stack, frame.Traced tokens :=
      fun other member => frames other (List.mem_cons_of_mem frame member)
    cases frame with
    | array elems =>
      refine ⟨fun members member => ?_, others⟩
      rcases List.mem_append.mp member with member | member
      · exact inside members member
      · rw [List.mem_singleton] at member
        subst member
        exact traced
    | object members key =>
      refine ⟨fun other s member => ?_, others⟩
      rcases List.mem_cons.mp member with same | member
      · cases same
        exact placed members key stack s rfl rfl
      · exact inside other s member

theorem wordValue_eq_some {lexeme : Str} {value : Json} (word : wordValue lexeme = some value) :
    Json.Traced tokens value ∧ ∀ s, value ≠ .str s := by
  unfold wordValue at word
  split_ifs at word <;> cases word <;> exact ⟨trivial, fun s same => nomatch same⟩

theorem beginValue_traced {stack : List Frame} {token : Token} {next : ParseState}
    (frames : ∀ frame ∈ stack, frame.Traced tokens) (read : KeyRead tokens stack)
    (begins : beginValue stack token = some next) : next.Traced (tokens ++ [token]) := by
  have frames' := frames_append frames [token]
  cases token with
  | string value =>
    cases begins
    refine complete_traced frames' trivial ?_
    intro members key rest s top same
    cases same
    subst top
    obtain ⟨before, parts⟩ : [Token.string key, Token.colon] <:+ tokens := read
    exact ⟨before, [], by simp [← parts]⟩
  | word lexeme =>
    obtain ⟨value, word, rfl⟩ := Option.map_eq_some_iff.mp begins
    obtain ⟨traced, notString⟩ := wordValue_eq_some word
    exact complete_traced frames' traced fun _ _ _ s _ same => absurd same (notString s)
  | lbracket =>
    cases begins
    exact frames'
  | lbrace =>
    cases begins
    exact frames'
  | rbrace => cases begins
  | rbracket => cases begins
  | colon => cases begins
  | comma => cases begins

/-- A value that is no string needs no key before it. -/
theorem placed_of_ne {stack : List Frame} {value : Json} (notString : ∀ s, value ≠ .str s) :
    Placed tokens stack value := fun _ _ _ s _ same => absurd same (notString s)

/-- The token after an opening bracket. -/
theorem firstElem_traced {stack : List Frame} {next : ParseState} {token : Token}
    (traced : ∀ frame ∈ stack, frame.Traced tokens)
    (step : parseStep (.firstElem stack) token = some next) : next.Traced (tokens ++ [token]) := by
  have frames : ∀ frame ∈ Frame.array [] :: stack, frame.Traced tokens := by
    intro frame member
    rcases List.mem_cons.mp member with rfl | member
    · exact fun members member => nomatch member
    · exact traced frame member
  by_cases close : token = .rbracket
  · subst close
    cases step
    exact complete_traced (frames_append traced _) (fun members member => nomatch member)
      (placed_of_ne fun s same => nomatch same)
  · have begins : beginValue (.array [] :: stack) token = some next := by
      cases token <;> first | exact step | exact absurd rfl close
    exact beginValue_traced frames trivial begins

/-- The token after an element or a member. -/
theorem after_traced {frame : Frame} {stack : List Frame} {next : ParseState} {token : Token}
    (here : frame.Traced tokens) (traced : ∀ frame ∈ stack, frame.Traced tokens)
    (step : parseStep (.after frame stack) token = some next) : next.Traced (tokens ++ [token]) := by
  have frames := frames_append traced [token]
  cases frame with
  | array elems =>
    have inside : ElemsIn (tokens ++ [token]) elems := ElemsIn.append here _
    cases token with
    | comma =>
      cases step
      refine ⟨fun frame member => ?_, trivial⟩
      rcases List.mem_cons.mp member with rfl | member
      · exact inside
      · exact frames frame member
    | rbracket =>
      cases step
      exact complete_traced frames inside (placed_of_ne fun s same => nomatch same)
    | _ => cases step
  | object members key =>
    have inside : MembersIn (tokens ++ [token]) members := MembersIn.append here _
    cases token with
    | comma =>
      cases step
      exact ⟨frames, inside⟩
    | rbrace =>
      cases step
      exact complete_traced frames inside (placed_of_ne fun s same => nomatch same)
    | _ => cases step

/-- **One token keeps the invariant.** -/
theorem parseStep_traced {state next : ParseState} {token : Token}
    (traced : state.Traced tokens) (step : parseStep state token = some next) :
    next.Traced (tokens ++ [token]) := by
  cases state with
  | value stack => exact beginValue_traced traced.1 traced.2 step
  | firstElem stack => exact firstElem_traced traced step
  | firstKey stack =>
    cases token with
    | rbrace =>
      cases step
      exact complete_traced (frames_append traced _) (fun key value member => nomatch member)
        (placed_of_ne fun s same => nomatch same)
    | string key =>
      cases step
      exact ⟨frames_append traced _, fun key value member => (nomatch member),
        List.suffix_append tokens _⟩
    | _ => cases step
  | key stack members =>
    cases token with
    | string key =>
      cases step
      exact ⟨frames_append traced.1 _, traced.2.append _, List.suffix_append tokens _⟩
    | _ => cases step
  | colon stack members key =>
    cases token with
    | colon =>
      cases step
      refine ⟨fun frame member => ?_, ?_⟩
      · rcases List.mem_cons.mp member with rfl | member
        · exact traced.2.1.append _
        · exact frames_append traced.1 _ frame member
      · obtain ⟨before, rfl⟩ := traced.2.2
        exact ⟨before, by simp⟩
    | _ => cases step
  | after frame stack => exact after_traced traced.1 traced.2 step
  | done value => cases step

end Step

theorem parseTokens_traced {before tokens : List Token} {state final : ParseState}
    (traced : state.Traced before) (run : parseTokens state tokens = some final) :
    final.Traced (before ++ tokens) := by
  induction tokens generalizing before state with
  | nil =>
    cases run
    rwa [List.append_nil]
  | cons token rest ih =>
    rw [parseTokens] at run
    cases step : parseStep state token with
    | none => simp [step] at run
    | some next =>
      rw [step] at run
      have more := ih (parseStep_traced traced step) run
      rwa [List.append_assoc] at more

/-- **A string member of an object in a parsed array is in the tokens of the text.** -/
theorem parse_adjacent {text : Str} {elems : List Json} (parsed : parse text = some (.arr elems))
    {members : List (Str × Json)} (object : .obj members ∈ elems) {key value : Str}
    (member : (key, .str value) ∈ members) :
    ∃ tokens, tokenize text = some tokens ∧ Adjacent tokens key value := by
  unfold parse at parsed
  cases lexed : tokenize text with
  | none => simp [lexed] at parsed
  | some tokens =>
    rw [lexed, Option.bind_some] at parsed
    cases run : parseTokens (.value []) tokens with
    | none => simp [run] at parsed
    | some state =>
      have start : (ParseState.value []).Traced [] :=
        ⟨fun frame member => (nomatch member), trivial⟩
      have traced := parseTokens_traced start run
      cases state with
      | done result =>
        rw [run] at parsed
        cases parsed
        exact ⟨tokens, rfl, traced members object key value member⟩
      | _ => simp [run] at parsed

end Xcalbuild.Library.Json
