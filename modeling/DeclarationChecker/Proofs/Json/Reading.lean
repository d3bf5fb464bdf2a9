import DeclarationChecker.Json.Reader
import DeclarationChecker.Proofs.Json.Writing

set_option autoImplicit false

namespace DeclarationChecker.Json

open Text

mutual

def Value.lexemes : Value → List Lexeme
  | .null => [.scalar .null]
  | .boolean b => [.scalar (.boolean b)]
  | .number spelling => [.scalar (.number spelling)]
  | .string text => [.string text]
  | .array items => .openArray :: itemLexemes items
  | .object members => .openObject :: memberLexemes members

def itemLexemes : List Value → List Lexeme
  | [] => [.closeArray]
  | item :: items => item.lexemes ++ furtherItems items

def furtherItems : List Value → List Lexeme
  | [] => [.closeArray]
  | item :: items => .comma :: (item.lexemes ++ furtherItems items)

def memberLexemes : List (CodePoints × Value) → List Lexeme
  | [] => [.closeObject]
  | (name, value) :: members => .string name :: .colon :: (value.lexemes ++ furtherMembers members)

def furtherMembers : List (CodePoints × Value) → List Lexeme
  | [] => [.closeObject]
  | (name, value) :: members =>
    .comma :: .string name :: .colon :: (value.lexemes ++ furtherMembers members)

end

def Value.Spellable (v : Value) : Prop := ∀ l ∈ v.lexemes, ∃ spelling, Spells l spelling

theorem spellable_string {text : CodePoints} (h : text.isWellFormed = true) :
    (Value.string text).Spellable := by
  intro l mem
  cases List.mem_singleton.1 mem
  obtain ⟨spelling, spelled⟩ := exists_spellsString h
  exact ⟨spelling, .string spelled⟩

theorem spellable_array {items : List Value} (h : ∀ item ∈ items, item.Spellable) :
    (Value.array items).Spellable := by
  refine List.forall_mem_cons.2 ⟨⟨_, .openArray⟩, ?_⟩
  induction items with
  | nil => exact List.forall_mem_singleton.2 ⟨_, .closeArray⟩
  | cons item items ih =>
    obtain ⟨here, others⟩ := List.forall_mem_cons.1 h
    rw [itemLexemes]
    refine List.forall_mem_append.2 ⟨here, ?_⟩
    cases items with
    | nil => exact ih others
    | cons next items => exact List.forall_mem_cons.2 ⟨⟨_, .comma⟩, ih others⟩

theorem spellable_object {members : List (CodePoints × Value)}
    (h : ∀ member ∈ members, member.1.isWellFormed = true ∧ member.2.Spellable) :
    (Value.object members).Spellable := by
  refine List.forall_mem_cons.2 ⟨⟨_, .openObject⟩, ?_⟩
  induction members with
  | nil => exact List.forall_mem_singleton.2 ⟨_, .closeObject⟩
  | cons member members ih =>
    obtain ⟨⟨wellFormed, here⟩, others⟩ := List.forall_mem_cons.1 h
    obtain ⟨spelling, spelled⟩ := exists_spellsString wellFormed
    rw [memberLexemes]
    refine List.forall_mem_cons.2 ⟨⟨spelling, .string spelled⟩,
      List.forall_mem_cons.2 ⟨⟨_, .colon⟩, List.forall_mem_append.2 ⟨here, ?_⟩⟩⟩
    cases members with
    | nil => exact ih others
    | cons next members => exact List.forall_mem_cons.2 ⟨⟨_, .comma⟩, ih others⟩

/-- What the reader does with a lexeme that it does not refuse, wherever that stands. -/
def ReaderState.accept? (s : ReaderState) (l : Lexeme) : Option ReaderState := (s.next ⟨l, 0⟩).toOption

theorem next_toOption (s : ReaderState) (l : PlacedLexeme) :
    (s.next l).toOption = s.accept? l.lexeme := by
  obtain ⟨lexeme, offset⟩ := l
  obtain ⟨stack, need⟩ := s
  cases need <;> cases lexeme <;> try rfl
  all_goals cases stack with
    | nil => rfl
    | cons frame stack => cases frame <;> rfl

theorem foldlM_next_toOption (ls : List PlacedLexeme) (s : ReaderState) :
    (ls.foldlM ReaderState.next s).toOption =
      (ls.map PlacedLexeme.lexeme).foldlM ReaderState.accept? s := by
  induction ls generalizing s with
  | nil => rfl
  | cons l ls ih =>
    rw [List.foldlM_cons, List.map_cons, List.foldlM_cons, ← next_toOption]
    cases s.next l with
    | error fault => rfl
    | ok s' => exact ih s'

/-! ### From a value to its lexemes and back -/

theorem lexemes_first (v : Value) : ∃ l ls, v.lexemes = l :: ls ∧ ∀ stack : List Frame,
    ReaderState.accept? ⟨stack, .itemOrClose⟩ l = ReaderState.accept? ⟨.item [] :: stack, .value⟩ l := by
  cases v <;> exact ⟨_, _, rfl, fun _ => rfl⟩

-- What is already read of an array or an object is in its frame, so the items and members that follow
-- are taken with any others before them.

mutual

theorem reads_lexemes : ∀ (v : Value) (stack : List Frame),
    v.lexemes.foldlM ReaderState.accept? ⟨stack, .value⟩ = some ⟨stack, .delimiter v⟩
  | .null, _ | .boolean _, _ | .number _, _ | .string _, _ => rfl
  | .array items, stack => reads_itemLexemes items stack
  | .object members, stack => reads_memberLexemes members stack

theorem reads_itemLexemes : ∀ (items : List Value) (stack : List Frame),
    (itemLexemes items).foldlM ReaderState.accept? ⟨stack, .itemOrClose⟩ =
      some ⟨stack, .delimiter (.array items)⟩
  | [], _ => rfl
  | item :: items, stack => by
    obtain ⟨l, ls, e, first⟩ := lexemes_first item
    have read := reads_lexemes item (.item [] :: stack)
    rw [itemLexemes, List.foldlM_append]
    rw [e, List.foldlM_cons] at read ⊢
    rw [first, read]
    exact reads_furtherItems items [] item stack

theorem reads_furtherItems : ∀ (items before : List Value) (item : Value) (stack : List Frame),
    (furtherItems items).foldlM ReaderState.accept? ⟨.item before :: stack, .delimiter item⟩ =
      some ⟨stack, .delimiter (.array (before ++ item :: items))⟩
  | [], _, _, _ => rfl
  | next :: items, before, item, stack => by
    have read := reads_lexemes next (.item (before ++ [item]) :: stack)
    rw [furtherItems, List.foldlM_cons]
    change List.foldlM ReaderState.accept? ⟨.item (before ++ [item]) :: stack, .value⟩
      (next.lexemes ++ furtherItems items) = _
    have others := reads_furtherItems items (before ++ [item]) next stack
    rw [← List.append_cons] at others
    rw [List.foldlM_append, read]
    exact others

theorem reads_memberLexemes : ∀ (members : List (CodePoints × Value)) (stack : List Frame),
    (memberLexemes members).foldlM ReaderState.accept? ⟨stack, .nameOrClose⟩ =
      some ⟨stack, .delimiter (.object members)⟩
  | [], _ => rfl
  | (name, value) :: members, stack => by
    have read := reads_lexemes value (.member [] name :: stack)
    rw [memberLexemes, List.foldlM_cons]
    change List.foldlM ReaderState.accept? ⟨.member [] name :: stack, .value⟩
      (value.lexemes ++ furtherMembers members) = _
    rw [List.foldlM_append, read]
    exact reads_furtherMembers members [] name value stack

theorem reads_furtherMembers : ∀ (members before : List (CodePoints × Value)) (name : CodePoints)
    (value : Value) (stack : List Frame),
    (furtherMembers members).foldlM ReaderState.accept?
        ⟨.member before name :: stack, .delimiter value⟩ =
      some ⟨stack, .delimiter (.object (before ++ (name, value) :: members))⟩
  | [], _, _, _, _ => rfl
  | (next, following) :: members, before, name, value, stack => by
    have read := reads_lexemes following (.member (before ++ [(name, value)]) next :: stack)
    rw [furtherMembers, List.foldlM_cons]
    change List.foldlM ReaderState.accept? ⟨.member (before ++ [(name, value)]) next :: stack, .value⟩
      (following.lexemes ++ furtherMembers members) = _
    have others := reads_furtherMembers members (before ++ [(name, value)]) next following stack
    rw [← List.append_cons] at others
    rw [List.foldlM_append, read]
    exact others

end

theorem furtherItems_delimits (items : List Value) (rest : List Lexeme) :
    ∀ l ∈ (furtherItems items ++ rest).head?, l.delimits = true := by
  cases items <;> (rintro l ⟨⟩; rfl)

theorem furtherMembers_delimits (members : List (CodePoints × Value)) (rest : List Lexeme) :
    ∀ l ∈ (furtherMembers members ++ rest).head?, l.delimits = true := by
  cases members <;> (rintro l ⟨⟩; rfl)

mutual

theorem delimited_lexemes : ∀ (v : Value) (rest : List Lexeme),
    (∀ l ∈ rest.head?, l.delimits = true) → Delimited rest → Delimited (v.lexemes ++ rest)
  | .null, _, next, delimited | .boolean _, _, next, delimited | .number _, _, next, delimited =>
    ⟨fun _ => next, delimited⟩
  | .string _, _, _, delimited => ⟨nofun, delimited⟩
  | .array items, rest, _, delimited => ⟨nofun, delimited_itemLexemes items rest delimited⟩
  | .object members, rest, _, delimited => ⟨nofun, delimited_memberLexemes members rest delimited⟩

theorem delimited_itemLexemes : ∀ (items : List Value) (rest : List Lexeme),
    Delimited rest → Delimited (itemLexemes items ++ rest)
  | [], _, delimited => ⟨nofun, delimited⟩
  | item :: items, rest, delimited => by
    rw [itemLexemes, List.append_assoc]
    exact delimited_lexemes item _ (furtherItems_delimits items rest)
      (delimited_furtherItems items rest delimited)

theorem delimited_furtherItems : ∀ (items : List Value) (rest : List Lexeme),
    Delimited rest → Delimited (furtherItems items ++ rest)
  | [], _, delimited => ⟨nofun, delimited⟩
  | item :: items, rest, delimited => by
    rw [furtherItems, List.cons_append, List.append_assoc]
    exact ⟨nofun, delimited_lexemes item _ (furtherItems_delimits items rest)
      (delimited_furtherItems items rest delimited)⟩

theorem delimited_memberLexemes : ∀ (members : List (CodePoints × Value)) (rest : List Lexeme),
    Delimited rest → Delimited (memberLexemes members ++ rest)
  | [], _, delimited => ⟨nofun, delimited⟩
  | (name, value) :: members, rest, delimited => by
    rw [memberLexemes, List.cons_append, List.cons_append, List.append_assoc]
    exact ⟨nofun, nofun, delimited_lexemes value _ (furtherMembers_delimits members rest)
      (delimited_furtherMembers members rest delimited)⟩

theorem delimited_furtherMembers : ∀ (members : List (CodePoints × Value)) (rest : List Lexeme),
    Delimited rest → Delimited (furtherMembers members ++ rest)
  | [], _, delimited => ⟨nofun, delimited⟩
  | (name, value) :: members, rest, delimited => by
    rw [furtherMembers, List.cons_append, List.cons_append, List.cons_append, List.append_assoc]
    exact ⟨nofun, nofun, nofun, delimited_lexemes value _ (furtherMembers_delimits members rest)
      (delimited_furtherMembers members rest delimited)⟩

end

theorem Value.delimited (v : Value) : Delimited v.lexemes := by
  have alone := delimited_lexemes v [] nofun trivial
  rwa [List.append_nil] at alone

theorem lexemesFrom_byteOrderMark (offset : Nat) (rest : List Char) :
    lexemesFrom offset ('\uFEFF' :: rest) = [⟨.unknown, offset⟩] := by
  have step : lexStep offset '\uFEFF' rest = .final .unknown := rfl
  rw [lexemesFrom, step]

/-- A text that writes a value is read as that value. -/
theorem read_of_written {v : Value} {text : List Char} (h : Written v.lexemes text) :
    read text = .ok v := by
  have written := lexemesFrom_of_written h v.delimited [] (fun _ _ _ => nofun) 0
  rw [List.append_nil, lexemesFrom, List.map_nil, List.append_nil] at written
  have folded := foldlM_next_toOption (lexemes text) ⟨[], .value⟩
  rw [lexemes, written, reads_lexemes] at folded
  have noMark : text.head? ≠ some '\uFEFF' := by
    intro mark
    obtain ⟨rest, rfl⟩ := List.head?_eq_some_iff.1 mark
    rw [lexemesFrom_byteOrderMark] at written
    cases v <;> cases written
  rw [read, if_neg noMark, lexemes]
  cases last : (lexemesFrom 0 text).foldlM ReaderState.next ⟨[], .value⟩ with
  | error fault =>
    rw [last] at folded
    cases folded
  | ok s =>
    rw [last] at folded
    cases folded
    rfl

end DeclarationChecker.Json
