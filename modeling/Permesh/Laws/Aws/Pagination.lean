import Permesh.Aws.Transport
import Permesh.Laws.Text
import Permesh.Lib.Forest

/-!
# Laws.Aws.Pagination — the explicit end of an inventory

The token loop keeps a stack, a count and one text for all elements. It accepts exactly the tokens of a
forest (`Reads`) in which the flag is written once, as a truth value, and which is not deeper than 64
elements. Of the tokenizer it is used that the tokens of a tag stand together (`Tokenized`).

Forward, the loop goes through a forest exactly if everything in it is in order (`foldlM_reads`).
Backward, tokens behind which nothing is left open write a forest (`Leaves.reads`), and only one
(`Reads.unique`), so there is one flag to speak of. How characters become tokens is left to the
tokenizer.
-/

namespace Permesh.Aws

open Permesh.Lib

/-! ## What the tokenizer writes -/

/-- Where the tokenizer is: in the content, in the start of an element, or in a document type. -/
inductive Place where
  | content
  | tag
  | dtd
  deriving DecidableEq

/-- The places behind a token that can stand at a place. -/
def Place.next : Place → Token → Option Place
  | .content, .elementStart _ => some .tag
  | .content, .dtdStart => some .dtd
  | .content, .attribute | .content, .dtdEnd => none
  | .content, .elementEnd (.close _) => some .content
  | .content, .elementEnd _ => none
  | .content, _ => some .content
  | .tag, .attribute => some .tag
  | .tag, .elementEnd .opened | .tag, .elementEnd .empty => some .content
  | .tag, _ => none
  | .dtd, .entityDeclaration | .dtd, .comment | .dtd, .processingInstruction => some .dtd
  | .dtd, .dtdEnd => some .content
  | .dtd, _ => none

/-- The tokens of a text, from a place on. They may end anywhere, and nothing is behind an error. -/
def Tokenized : Place → List (Option Token) → Bool
  | _, [] => true
  | _, none :: rest => rest.isEmpty
  | place, some token :: rest =>
    match place.next token with
    | some place => Tokenized place rest
    | none => false

/-! ## What the tokens say -/

/-- A token that ends the loop: an error, a document type or an entity. -/
def Refused (token : Option Token) : Prop :=
  token = none ∨ token = some .dtdStart ∨ token = some .emptyDtd ∨ token = some .entityDeclaration ∨
    token = some .dtdEnd

/-- A token that says nothing of the elements. -/
def Aside (token : Option Token) : Prop :=
  token = some .declaration ∨ token = some .processingInstruction ∨ token = some .comment ∨
    token = some .cdata

theorem Aside.ne_text {token : Option Token} (aside : Aside token) (piece : String) :
    token ≠ some (.text piece) := by
  rcases aside with rfl | rfl | rfl | rfl <;> nofun

theorem Aside.ne_start {token : Option Token} (aside : Aside token) (name : String) :
    token ≠ some (.elementStart name) := by
  rcases aside with rfl | rfl | rfl | rfl <;> nofun

/-- The attributes of an element. -/
def Attributes (tokens : List (Option Token)) : Prop := ∀ token ∈ tokens, token = some .attribute

/-- The forest that tokens write. -/
inductive Reads : List (Option Token) → Forest String → Prop where
  | nil : Reads [] .nil
  | aside {token : Option Token} {tokens : List (Option Token)} {f : Forest String} :
      Aside token → Reads tokens f → Reads (token :: tokens) f
  | text {piece : String} {tokens : List (Option Token)} {f : Forest String} :
      Reads tokens f → Reads (some (.text piece) :: tokens) (.text piece f)
  | empty {name : String} {attributes tokens : List (Option Token)} {f : Forest String} :
      Attributes attributes → Reads tokens f →
      Reads (some (.elementStart name) :: (attributes ++ some (.elementEnd .empty) :: tokens))
        (.element name .nil f)
  | element {name : String} {attributes inner tokens : List (Option Token)}
      {children f : Forest String} : Attributes attributes → Reads inner children → Reads tokens f →
      Reads (some (.elementStart name) :: (attributes ++ some (.elementEnd .opened) ::
        (inner ++ some (.elementEnd (.close name)) :: tokens))) (.element name children f)

/-- A truth value is written. -/
def Explicit (f : Forest String) : Prop :=
  Text.trim f.directText = "true" ∨ Text.trim f.directText = "false"

/-! ## The loop over a forest -/

/-- What the loop finds in a forest. -/
structure Passes (stack : List String) (f : Forest String) : Prop where
  depth : stack.length + f.depth ≤ 64
  flags : ∀ flag ∈ f.contentsAt IS_TRUNCATED stack, Explicit flag

/-- The variables behind a forest. -/
def Scan.after (s : Scan) (f : Forest String) : Scan where
  stack := s.stack
  found := s.found + (f.contentsAt IS_TRUNCATED s.stack).length
  value := if s.stack = IS_TRUNCATED then s.value ++ f.directText else s.value

/-- The variables before a forest: no text is kept on the way to a flag. -/
structure Scan.Ready (s : Scan) : Prop where
  depth : s.stack.length ≤ 64
  value : s.stack <+: IS_TRUNCATED → s.stack ≠ IS_TRUNCATED → s.value = ""

instance (f : Forest String) : Decidable (Explicit f) :=
  inferInstanceAs (Decidable (_ ∨ _))

instance (stack : List String) (f : Forest String) : Decidable (Passes stack f) :=
  decidable_of_iff ((stack.length + f.depth ≤ 64) ∧
      ∀ flag ∈ f.contentsAt IS_TRUNCATED stack, Explicit flag)
    ⟨fun h => ⟨h.1, h.2⟩, fun h => ⟨h.depth, h.flags⟩⟩

theorem step_aside {s : Scan} {token : Option Token} (aside : Aside token) :
    s.step token = some s := by
  rcases aside with rfl | rfl | rfl | rfl <;> rfl

theorem foldlM_attributes {s : Scan} {attributes : List (Option Token)} (h : Attributes attributes) :
    attributes.foldlM Scan.step s = some s := by
  induction attributes with
  | nil => rfl
  | cons token attributes ih =>
    obtain ⟨first, rest⟩ := List.forall_mem_cons.mp h
    rw [List.foldlM_cons, first]
    exact ih rest

theorem passes_element {stack : List String} {name : String} {children f : Forest String} :
    Passes stack (.element name children f) ↔ Passes (stack ++ [name]) children ∧
      (stack ++ [name] = IS_TRUNCATED → Explicit children) ∧ Passes stack f := by
  constructor
  · rintro ⟨depth, flags⟩
    rw [Forest.depth] at depth
    rw [Forest.contentsAt, List.forall_mem_append, List.forall_mem_append] at flags
    obtain ⟨⟨own, inner⟩, rest⟩ := flags
    refine ⟨⟨?_, inner⟩, fun here => ?_, ⟨by omega, rest⟩⟩
    · rw [List.length_append, List.length_singleton]
      omega
    · rw [if_pos here] at own
      exact own children (List.mem_singleton.mpr rfl)
  · rintro ⟨⟨depth, inner⟩, own, ⟨depth', rest⟩⟩
    rw [List.length_append, List.length_singleton] at depth
    refine ⟨?_, ?_⟩
    · rw [Forest.depth]
      omega
    · rw [Forest.contentsAt, List.forall_mem_append, List.forall_mem_append]
      refine ⟨⟨fun flag mem => ?_, inner⟩, rest⟩
      split at mem
      case isTrue here => exact List.mem_singleton.mp mem ▸ own here
      case isFalse => cases mem

/-- The variables in an element that was entered. -/
def Scan.enter (s : Scan) (name : String) : Scan := { s with stack := s.stack ++ [name] }

/-- An element is entered without a text that is kept. -/
theorem Scan.Ready.enter {s : Scan} (ready : s.Ready) {name : String}
    (fits : (s.stack ++ [name]).length ≤ 64) : (s.enter name).Ready where
  depth := fits
  value before _ := by
    apply ready.value ((List.prefix_append _ _).trans before)
    intro same
    have le : (s.stack ++ [name]).length ≤ IS_TRUNCATED.length := before.length_le
    rw [← same, List.length_append, List.length_singleton] at le
    omega

/-- The variables behind an element. -/
def Scan.behind (s : Scan) (name : String) (children : Forest String) : Scan where
  stack := s.stack
  found := s.found + (children.contentsAt IS_TRUNCATED (s.stack ++ [name])).length +
    if s.stack ++ [name] = IS_TRUNCATED then 1 else 0
  value := s.value

theorem leave_after {s : Scan} (ready : s.Ready) (name : String) (children : Forest String) :
    ((s.enter name).after children).leave =
      if s.stack ++ [name] = IS_TRUNCATED → Explicit children then some (s.behind name children)
      else none := by
  unfold Scan.leave Scan.after Scan.enter Scan.behind
  dsimp only
  by_cases here : s.stack ++ [name] = IS_TRUNCATED
  · have empty : s.value = "" := by
      apply ready.value ⟨[name], here⟩
      intro same
      exact List.cons_ne_nil _ _ (List.append_right_eq_self.mp (here.trans same.symm))
    rw [if_pos here, if_pos here, empty, String.empty_append, List.dropLast_concat, if_pos here]
    exact if_congr ⟨fun explicit _ => explicit, fun all => all here⟩ rfl rfl
  · rw [if_neg here, if_neg here, if_neg here, if_pos fun same => absurd same here,
      List.dropLast_concat, Nat.add_zero]

theorem Scan.Ready.behind {s : Scan} (ready : s.Ready) (name : String) (children : Forest String) :
    (s.behind name children).Ready := ⟨ready.depth, ready.value⟩

theorem after_behind (s : Scan) (name : String) (children f : Forest String) :
    (s.behind name children).after f = s.after (.element name children f) := by
  unfold Scan.after Scan.behind
  rw [Forest.contentsAt, List.length_append, List.length_append, Forest.directText]
  have own : (if s.stack ++ [name] = IS_TRUNCATED then [children] else []).length =
      if s.stack ++ [name] = IS_TRUNCATED then 1 else 0 := by
    split <;> rfl
  rw [own]
  simp only [Scan.mk.injEq, true_and, and_true]
  omega

/-- The tokens of an element and those behind it, if the loop goes through what is in it. -/
theorem foldlM_block {s : Scan} (ready : s.Ready) {name : String} {children f : Forest String}
    {attributes body tokens : List (Option Token)} (plain : Attributes attributes)
    (inner : (s.enter name).Ready → body.foldlM Scan.step (s.enter name) =
      (if Passes (s.enter name).stack children then ((s.enter name).after children).leave
        else none).bind (tokens.foldlM Scan.step))
    (rest : ∀ s' : Scan, s'.Ready → tokens.foldlM Scan.step s' =
      if Passes s'.stack f then some (s'.after f) else none) :
    (some (.elementStart name) :: (attributes ++ body)).foldlM Scan.step s =
      if Passes s.stack (.element name children f) then some (s.after (.element name children f))
      else none := by
  rw [List.foldlM_cons, Scan.step]
  by_cases deep : (s.stack ++ [name]).length > 64
  · rw [if_pos deep, if_neg]
    · rfl
    · intro passes
      have depth := (passes_element.mp passes).1.depth
      omega
  rw [if_neg deep]
  show (attributes ++ body).foldlM Scan.step (s.enter name) = _
  rw [List.foldlM_append, foldlM_attributes plain]
  show body.foldlM Scan.step (s.enter name) = _
  rw [inner (ready.enter (Nat.le_of_not_lt deep)), leave_after ready]
  by_cases within : Passes (s.enter name).stack children
  · rw [if_pos within]
    by_cases own : s.stack ++ [name] = IS_TRUNCATED → Explicit children
    · rw [if_pos own, Option.bind_some, rest _ (ready.behind name children), after_behind]
      exact if_congr ⟨fun passes => passes_element.mpr ⟨within, own, passes⟩,
        fun passes => (passes_element.mp passes).2.2⟩ rfl rfl
    · rw [if_neg own, if_neg fun passes => own (passes_element.mp passes).2.1]
      rfl
  · rw [if_neg within, if_neg fun passes => within (passes_element.mp passes).1]
    rfl

theorem after_nil (s : Scan) : s.after .nil = s := by
  unfold Scan.after
  rw [Forest.directText, String.append_empty, ite_self]
  rfl

/-- **One forest**: the loop goes through it if everything in it is in order. -/
theorem foldlM_reads {tokens : List (Option Token)} {f : Forest String} (h : Reads tokens f)
    {s : Scan} (ready : s.Ready) :
    tokens.foldlM Scan.step s = if Passes s.stack f then some (s.after f) else none := by
  induction h generalizing s with
  | nil =>
    rw [if_pos ⟨ready.depth, nofun⟩, after_nil]
    rfl
  | aside aside _ ih =>
    rw [List.foldlM_cons, step_aside aside]
    exact ih ready
  | @text piece tokens f _ ih =>
    have same : Passes s.stack (.text piece f) ↔ Passes s.stack f :=
      ⟨fun h => ⟨h.depth, h.flags⟩, fun h => ⟨h.depth, h.flags⟩⟩
    rw [List.foldlM_cons, Scan.step]
    by_cases here : s.stack = IS_TRUNCATED
    · have after : Scan.after { s with value := s.value ++ piece } f = s.after (.text piece f) := by
        simp only [Scan.after, here, if_true, Forest.directText, String.append_assoc]
        rfl
      have ready' : Scan.Ready { s with value := s.value ++ piece } :=
        ⟨ready.depth, fun _ other => absurd here other⟩
      rw [if_pos here]
      apply (ih ready').trans
      rw [after]
      exact if_congr same.symm rfl rfl
    · have after : s.after f = s.after (.text piece f) := by
        simp only [Scan.after, if_neg here]
        rfl
      rw [if_neg here]
      apply (ih ready).trans
      rw [after]
      exact if_congr same.symm rfl rfl
  | empty plain _ ih =>
    refine foldlM_block ready plain (fun entered => ?_) fun s' ready' => ih ready'
    rw [List.foldlM_cons, if_pos ⟨entered.depth, nofun⟩, after_nil]
    rfl
  | @element name attributes inner tokens children f plain _ _ ihc ih =>
    refine foldlM_block ready plain (fun entered => ?_) fun s' ready' => ih ready'
    rw [List.foldlM_cons]
    show (inner ++ _).foldlM Scan.step (s.enter name) = _
    rw [List.foldlM_append, ihc entered]
    by_cases within : Passes (s.enter name).stack children
    · rw [if_pos within, if_pos within]
      show (some (.elementEnd (.close name)) :: tokens).foldlM Scan.step
        ((s.enter name).after children) = _
      rw [List.foldlM_cons, Scan.step, if_pos]
      · rfl
      · exact List.getLast?_concat
    · rw [if_neg within, if_neg within]
      rfl

/-! ## The forest of an accepted loop -/

theorem Reads.append {tokens more : List (Option Token)} {f g : Forest String}
    (h : Reads tokens f) (h' : Reads more g) : ∃ both, Reads (tokens ++ more) both := by
  induction h with
  | nil => exact ⟨g, h'⟩
  | aside aside _ ih =>
    obtain ⟨both, ih⟩ := ih
    exact ⟨both, .aside aside ih⟩
  | @text piece _ _ _ ih =>
    obtain ⟨both, ih⟩ := ih
    exact ⟨.text piece both, .text ih⟩
  | @empty name attributes tokens f plain _ ih =>
    obtain ⟨both, ih⟩ := ih
    refine ⟨.element name .nil both, ?_⟩
    rw [List.cons_append, List.append_assoc, List.cons_append]
    exact .empty plain ih
  | @element name attributes inner tokens children f plain inside _ _ ih =>
    obtain ⟨both, ih⟩ := ih
    refine ⟨.element name children both, ?_⟩
    rw [List.cons_append, List.append_assoc, List.cons_append, List.append_assoc, List.cons_append]
    exact .element plain inside ih

/-- Tokens behind which some elements are open. -/
inductive Leaves : Place → List (Option Token) → List String → Prop where
  | closed {tokens : List (Option Token)} {f : Forest String} :
      Reads tokens f → Leaves .content tokens []
  | tag {tokens attributes : List (Option Token)} {stack : List String} (name : String) :
      Leaves .content tokens stack → Attributes attributes →
      Leaves .tag (tokens ++ some (.elementStart name) :: attributes) (stack ++ [name])
  | opened {tokens attributes inner : List (Option Token)} {stack : List String} {name : String}
      {f : Forest String} : Leaves .content tokens stack → Attributes attributes → Reads inner f →
      Leaves .content (tokens ++ some (.elementStart name) :: (attributes ++
        some (.elementEnd .opened) :: inner)) (stack ++ [name])

/-- A forest behind tokens leaves open what they left open. -/
theorem Leaves.append {tokens more : List (Option Token)} {stack : List String} {g : Forest String}
    (h : Leaves .content tokens stack) (h' : Reads more g) :
    Leaves .content (tokens ++ more) stack := by
  cases h with
  | closed reads =>
    obtain ⟨both, reads⟩ := reads.append h'
    exact .closed reads
  | @opened tokens attributes inner stack name f before plain reads =>
    obtain ⟨both, reads⟩ := reads.append h'
    rw [List.append_assoc, List.cons_append, List.append_assoc, List.cons_append]
    exact .opened before plain reads

theorem leave_stack {s s' : Scan} (h : s.leave = some s') : s'.stack = s.stack.dropLast := by
  unfold Scan.leave at h
  split at h
  · split at h
    · cases h
      rfl
    · cases h
  · cases h
    rfl

/-- **One token** in the content. -/
theorem Leaves.content_step {place : Place} {tokens : List (Option Token)} {token : Token}
    {s s' : Scan} (h : Leaves .content tokens s.stack) (next : Place.content.next token = some place)
    (on : s.step (some token) = some s') : Leaves place (tokens ++ [some token]) s'.stack := by
  cases token with
  | declaration | processingInstruction | comment | cdata =>
    cases next
    cases on
    exact h.append (.aside (by simp [Aside]) .nil)
  | text piece =>
    cases next
    have same : s'.stack = s.stack := by
      simp only [Scan.step, Option.some.injEq] at on
      rw [← on]
      split <;> rfl
    rw [same]
    exact h.append (.text .nil)
  | elementStart name =>
    cases next
    rw [Scan.step] at on
    split at on
    · cases on
    · cases on
      exact .tag name h nofun
  | elementEnd kind =>
    cases kind with
    | opened | empty => cases next
    | close name =>
      cases next
      rw [Scan.step] at on
      split at on
      case isFalse => cases on
      case isTrue last =>
        rw [leave_stack on]
        generalize s.stack = stack at h last ⊢
        cases h with
        | closed => cases last
        | @opened tokens attributes inner stack name' f before plain reads =>
          rw [List.getLast?_concat] at last
          cases last
          rw [List.dropLast_concat, List.append_assoc, List.cons_append, List.append_assoc,
            List.cons_append]
          exact before.append (.element plain reads .nil)
  | dtdStart | emptyDtd | entityDeclaration => cases on
  | «attribute» | dtdEnd => cases next

/-- **One token** in a tag. -/
theorem Leaves.tag_step {place : Place} {tokens : List (Option Token)} {token : Token}
    {s s' : Scan} (h : Leaves .tag tokens s.stack) (next : Place.tag.next token = some place)
    (on : s.step (some token) = some s') : Leaves place (tokens ++ [some token]) s'.stack := by
  generalize same : s.stack = stack at h
  cases h with
  | @tag tokens attributes stack name before plain =>
    rw [List.append_assoc, List.cons_append]
    cases token with
    | «attribute» =>
      cases next
      cases on
      rw [same]
      refine .tag name before fun token mem => ?_
      rcases List.mem_append.mp mem with mem | mem
      · exact plain token mem
      · exact List.mem_singleton.mp mem
    | elementEnd kind =>
      cases kind with
      | opened =>
        cases next
        cases on
        rw [same]
        exact .opened before plain .nil
      | empty =>
        cases next
        rw [leave_stack on, same, List.dropLast_concat]
        exact before.append (.empty plain .nil)
      | close name => cases next
    | declaration | processingInstruction | comment | dtdStart | emptyDtd | entityDeclaration
    | dtdEnd | elementStart | text | cdata => cases next

/-- Tokens of a loop that ends with nothing left open write a forest. -/
theorem Leaves.reads {place : Place} {tokens more : List (Option Token)} {s s' : Scan}
    (h : Leaves place tokens s.stack) (written : Tokenized place more = true)
    (on : more.foldlM Scan.step s = some s') (closed : s'.stack = []) :
    ∃ f, Reads (tokens ++ more) f := by
  induction more generalizing place tokens s with
  | nil =>
    cases on
    rw [closed] at h
    generalize same : ([] : List String) = stack at h
    cases h with
    | closed reads =>
      rw [List.append_nil]
      exact ⟨_, reads⟩
    | tag | opened => exact absurd same.symm (List.concat_ne_nil _ _)
  | cons token more ih =>
    rw [List.foldlM_cons] at on
    obtain ⟨s₁, first, rest⟩ := Option.bind_eq_some_iff.mp on
    cases token with
    | none => cases first
    | some token =>
      rw [Tokenized] at written
      cases next : place.next token with
      | none =>
        rw [next] at written
        cases written
      | some place' =>
        rw [next] at written
        have step : Leaves place' (tokens ++ [some token]) s₁.stack := by
          cases place with
          | content => exact h.content_step next first
          | tag => exact h.tag_step next first
          | dtd => cases h
        have reads := ih step written rest
        rwa [List.append_assoc, List.singleton_append] at reads

/-! ## One forest only -/

/-- What may stand behind a forest: nothing, or the end of an element around it. -/
def Outside (tokens : List (Option Token)) : Prop :=
  tokens = [] ∨ ∃ name rest, tokens = some (.elementEnd (.close name)) :: rest

/-- The attributes of a tag end with its end. -/
theorem attributes_cut {attributes attributes' rest rest' : List (Option Token)}
    {kind kind' : ElementEnd} (plain : Attributes attributes) (plain' : Attributes attributes')
    (same : attributes ++ some (.elementEnd kind) :: rest =
      attributes' ++ some (.elementEnd kind') :: rest') : kind = kind' ∧ rest = rest' := by
  induction attributes generalizing attributes' with
  | nil =>
    cases attributes' with
    | nil =>
      cases same
      exact ⟨rfl, rfl⟩
    | cons first more =>
      cases same
      cases plain' _ List.mem_cons_self
  | cons first more ih =>
    cases attributes' with
    | nil =>
      cases same
      cases plain _ List.mem_cons_self
    | cons first' more' =>
      exact ih (fun t mem => plain t (List.mem_cons_of_mem _ mem))
        (fun t mem => plain' t (List.mem_cons_of_mem _ mem)) (List.cons.inj same).2

/-- What is behind the tag of an element. -/
theorem tag_cut {name name' : String} {attributes attributes' rest rest' x y : List (Option Token)}
    {kind kind' : ElementEnd} (plain : Attributes attributes) (plain' : Attributes attributes')
    (same : some (.elementStart name) :: (attributes ++ some (.elementEnd kind) :: rest) ++ x =
      some (.elementStart name') :: (attributes' ++ some (.elementEnd kind') :: rest') ++ y) :
    name = name' ∧ kind = kind' ∧ rest ++ x = rest' ++ y := by
  rw [List.cons_append, List.cons_append, List.append_assoc, List.append_assoc] at same
  obtain ⟨head, tail⟩ := List.cons.inj same
  cases head
  exact ⟨rfl, attributes_cut plain plain' tail⟩

/-- What the tokens of a forest start with. -/
theorem Reads.head {token : Option Token} {tokens : List (Option Token)} {f : Forest String}
    (h : Reads (token :: tokens) f) : ∀ name, token ≠ some (.elementEnd (.close name)) := by
  generalize same : token :: tokens = whole at h
  rintro name rfl
  cases h with
  | nil => cases same
  | aside aside =>
    cases same
    simp [Aside] at aside
  | text | empty | element => cases same

/-- A forest is cut off where it ends, in one way only. -/
theorem Reads.cut {a b x y : List (Option Token)} {f g : Forest String} (h : Reads a f)
    (h' : Reads b g) (ends : Outside x) (ends' : Outside y) (same : a ++ x = b ++ y) :
    f = g ∧ x = y := by
  -- Where one forest is at its end, so is the other.
  have first {token : Option Token} {tokens rest out : List (Option Token)} {f : Forest String}
      (reads : Reads (token :: tokens) f) (ends : Outside out) (same : out = token :: rest) : False := by
    rcases ends with rfl | ⟨name, rest', rfl⟩
    · cases same
    · exact reads.head name (List.cons.inj same).1.symm
  induction h generalizing b x y g with
  | nil =>
    cases h' with
    | nil => exact ⟨rfl, same⟩
    | aside aside reads => exact (first (.aside aside reads) ends same).elim
    | text reads => exact (first (.text reads) ends same).elim
    | empty plain reads => exact (first (.empty plain reads) ends same).elim
    | element plain inside reads => exact (first (.element plain inside reads) ends same).elim
  | aside aside reads ih =>
    cases h' with
    | nil => exact (first (.aside aside reads) ends' same.symm).elim
    | aside _ reads' => exact ih reads' ends ends' (List.cons.inj same).2
    | text => exact absurd (List.cons.inj same).1 (aside.ne_text _)
    | empty | element => exact absurd (List.cons.inj same).1 (aside.ne_start _)
  | text reads ih =>
    cases h' with
    | nil => exact (first (.text reads) ends' same.symm).elim
    | aside aside => exact absurd (List.cons.inj same).1.symm (aside.ne_text _)
    | text reads' =>
      obtain ⟨head, tail⟩ := List.cons.inj same
      cases head
      obtain ⟨rfl, rest⟩ := ih reads' ends ends' tail
      exact ⟨rfl, rest⟩
    | empty | element => cases (List.cons.inj same).1
  | empty plain reads ih =>
    cases h' with
    | nil => exact (first (.empty plain reads) ends' same.symm).elim
    | aside aside => exact absurd (List.cons.inj same).1.symm (aside.ne_start _)
    | text => cases (List.cons.inj same).1
    | empty plain' reads' =>
      obtain ⟨rfl, -, tail⟩ := tag_cut plain plain' same
      obtain ⟨rfl, rest⟩ := ih reads' ends ends' tail
      exact ⟨rfl, rest⟩
    | element plain' => cases (tag_cut plain plain' same).2.1
  | element plain inside reads ihc ih =>
    cases h' with
    | nil => exact (first (.element plain inside reads) ends' same.symm).elim
    | aside aside => exact absurd (List.cons.inj same).1.symm (aside.ne_start _)
    | text => cases (List.cons.inj same).1
    | empty plain' => cases (tag_cut plain plain' same).2.1
    | element plain' inside' reads' =>
      obtain ⟨rfl, -, tail⟩ := tag_cut plain plain' same
      rw [List.append_assoc, List.append_assoc] at tail
      obtain ⟨rfl, tail⟩ := ihc inside' (.inr ⟨_, _, rfl⟩) (.inr ⟨_, _, rfl⟩) tail
      obtain ⟨rfl, rest⟩ := ih reads' ends ends' (List.cons.inj tail).2
      exact ⟨rfl, rest⟩

theorem Reads.unique {tokens : List (Option Token)} {f g : Forest String} (h : Reads tokens f)
    (h' : Reads tokens g) : f = g :=
  (h.cut h' (.inl rfl) (.inl rfl) rfl).1

/-! ## The guard -/

theorem Reads.accepted {tokens : List (Option Token)} {f : Forest String} (h : Reads tokens f) :
    ∀ token ∈ tokens, ¬Refused token := by
  have plain {attributes : List (Option Token)} (h : Attributes attributes) :
      ∀ token ∈ attributes, ¬Refused token := fun token mem => by
    rw [h token mem]
    simp [Refused]
  induction h with
  | nil => nofun
  | aside aside _ ih =>
    refine List.forall_mem_cons.mpr ⟨?_, ih⟩
    rcases aside with rfl | rfl | rfl | rfl <;> simp [Refused]
  | text _ ih => exact List.forall_mem_cons.mpr ⟨by simp [Refused], ih⟩
  | empty attributes _ ih =>
    refine List.forall_mem_cons.mpr ⟨by simp [Refused], List.forall_mem_append.mpr
      ⟨plain attributes, List.forall_mem_cons.mpr ⟨by simp [Refused], ih⟩⟩⟩
  | element attributes _ _ ihc ih =>
    refine List.forall_mem_cons.mpr ⟨by simp [Refused], List.forall_mem_append.mpr
      ⟨plain attributes, List.forall_mem_cons.mpr ⟨by simp [Refused], List.forall_mem_append.mpr
        ⟨ihc, List.forall_mem_cons.mpr ⟨by simp [Refused], ih⟩⟩⟩⟩⟩

/-- The tokens say once, and at the documented place, whether there is a further page. -/
structure ExplicitEnd (tokens : List (Option Token)) (f : Forest String) : Prop where
  accepted : ∀ token ∈ tokens, ¬Refused token
  nested : Reads tokens f
  depth : f.depth ≤ 64
  flag : ∃ flag, f.contentsAt IS_TRUNCATED [] = [flag] ∧ Explicit flag

theorem explicitTokens_iff {tokens : List (Option Token)} (written : Tokenized .content tokens = true) :
    explicitTokens tokens = true ↔ ∃ f, ExplicitEnd tokens f := by
  have ready : (⟨[], 0, ""⟩ : Scan).Ready := ⟨by decide, fun _ _ => rfl⟩
  unfold explicitTokens
  constructor
  · intro h
    split at h
    case h_2 => cases h
    case h_1 s on =>
      rw [Bool.and_eq_true, beq_iff_eq, List.isEmpty_iff] at h
      obtain ⟨f, reads⟩ := Leaves.reads (.closed .nil) written on h.2
      rw [List.nil_append] at reads
      rw [foldlM_reads reads ready] at on
      split at on
      case isFalse => cases on
      case isTrue passes =>
        cases on
        have single : (f.contentsAt IS_TRUNCATED []).length = 1 := (Nat.zero_add _).symm.trans h.1
        obtain ⟨flag, eq⟩ := List.length_eq_one_iff.mp single
        have depth := passes.depth
        rw [List.length_nil, Nat.zero_add] at depth
        exact ⟨f, reads.accepted, reads, depth, flag, eq,
          passes.flags flag (eq ▸ List.mem_singleton.mpr rfl)⟩
  · rintro ⟨f, -, reads, depth, flag, eq, explicit⟩
    have passes : Passes [] f := by
      refine ⟨(Nat.zero_add _).trans_le depth, fun other mem => ?_⟩
      rw [eq] at mem
      exact List.mem_singleton.mp mem ▸ explicit
    rw [foldlM_reads reads ready, if_pos passes]
    simp [Scan.after, eq]

theorem explicitPagination_iff {tokenizer : String → List (Option Token)}
    (written : ∀ text, Tokenized .content (tokenizer text) = true) (bytes : List UInt8) :
    explicitPagination tokenizer bytes = true ↔
      ∃ text, Text.fromUtf8 bytes = some text ∧ ∃ f, ExplicitEnd (tokenizer text) f := by
  unfold explicitPagination
  cases Text.fromUtf8 bytes with
  | none => exact iff_of_false nofun nofun
  | some text =>
    refine (explicitTokens_iff (written text)).trans ⟨fun h => ⟨text, rfl, h⟩, ?_⟩
    rintro ⟨_, same, h⟩
    exact Option.some.inj same ▸ h

/-- **The explicit end of an inventory**: whatever tokens the tokenizer writes for a text, the guard
accepts them exactly when they write a forest with one flag. There is one forest at most. -/
theorem explicitPagination_exact (tokenizer : String → List (Option Token))
    (written : ∀ text, Tokenized .content (tokenizer text) = true) :
    (∀ bytes, explicitPagination tokenizer bytes = true ↔
      ∃ text, Text.fromUtf8 bytes = some text ∧ ∃ f, ExplicitEnd (tokenizer text) f) ∧
    ∀ tokens f g, Reads tokens f → Reads tokens g → f = g :=
  ⟨explicitPagination_iff written, fun _ _ _ => Reads.unique⟩

/-- The last page of an inventory, without its rows. -/
def lastPage : String :=
  "<GetAccountAuthorizationDetailsResponse><GetAccountAuthorizationDetailsResult>" ++
    "<IsTruncated>false</IsTruncated></GetAccountAuthorizationDetailsResult>" ++
      "</GetAccountAuthorizationDetailsResponse>"

def lastPageTokens : List (Option Token) :=
  [.elementStart "GetAccountAuthorizationDetailsResponse", .elementEnd .opened,
    .elementStart "GetAccountAuthorizationDetailsResult", .elementEnd .opened,
    .elementStart "IsTruncated", .elementEnd .opened, .text "false",
    .elementEnd (.close "IsTruncated"),
    .elementEnd (.close "GetAccountAuthorizationDetailsResult"),
    .elementEnd (.close "GetAccountAuthorizationDetailsResponse")].map some

/-- The tokens of this page; nothing is read of other texts. -/
def lastPageTokenizer (text : String) : List (Option Token) :=
  if text = lastPage then lastPageTokens else []

theorem explicitPagination_lastPage :
    explicitPagination lastPageTokenizer (Text.asBytes lastPage) = true ∧
      ∃ f, ExplicitEnd lastPageTokens f := by
  have exact := explicitPagination_exact lastPageTokenizer fun text => by
    unfold lastPageTokenizer
    split <;> decide
  have tokens : lastPageTokenizer lastPage = lastPageTokens := if_pos rfl
  have explicit : explicitPagination lastPageTokenizer (Text.asBytes lastPage) = true := by
    unfold explicitPagination
    rw [Text.fromUtf8_asBytes]
    show explicitTokens (lastPageTokenizer lastPage) = true
    rw [tokens]
    decide +kernel
  obtain ⟨text, same, h⟩ := (exact.1 _).mp explicit
  rw [Text.fromUtf8_asBytes] at same
  cases same
  exact ⟨explicit, tokens ▸ h⟩

/-- Two flags, a flag of another name, and a flag that is split around an element. -/
example : explicitTokens (lastPageTokens.take 8 ++ lastPageTokens.drop 4) = false ∧
    explicitTokens (lastPageTokens.take 7 ++ [some (.elementEnd (.close "Other"))]) = false ∧
    explicitTokens (lastPageTokens.take 6 ++ [some (.text "fal"), some (.elementStart "b"),
      some (.elementEnd .empty), some (.text "se")] ++ lastPageTokens.drop 7) = true := by
  decide +kernel

end Permesh.Aws
