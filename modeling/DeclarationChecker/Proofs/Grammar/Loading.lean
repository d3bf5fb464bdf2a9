import DeclarationChecker.Grammar.OfJson
import DeclarationChecker.Proofs.Json.Refusal

set_option autoImplicit false

namespace DeclarationChecker.Grammar

open Json Text

def memberNames : List String := ["terminals", "nonterminals", "startSymbol", "productions"]

/-- A list with more elements of some kind put in anywhere. -/
inductive Padded {α : Type} (extra : α → Prop) : List α → List α → Prop
  | nil : Padded extra [] []
  | keep {x : α} {xs ys : List α} (rest : Padded extra xs ys) : Padded extra (x :: xs) (x :: ys)
  | put {y : α} {xs ys : List α} (other : extra y) (rest : Padded extra xs ys) :
      Padded extra xs (y :: ys)

/-- The symbols of an alternative, among values that are no strings. -/
def ListsSymbols (rhs : List Name) (v : Value) : Prop :=
  ∃ symbols, v = .array symbols ∧
    Padded (fun v => ∀ text, v ≠ .string text) (rhs.map .string) symbols

def ListsAlternatives (entry : Name × List (List Name)) (member : Name × Value) : Prop :=
  member.1 = entry.1 ∧
    ∃ alternatives, member.2 = .array alternatives ∧ List.Forall₂ ListsSymbols entry.2 alternatives

/-- An object that has the four members of a description, in any order and among members of other
names. -/
def Describes (g : Grammar) (v : Value) : Prop :=
  ∃ productions own members, v = .object members ∧
    List.Forall₂ ListsAlternatives g.productions.entries productions ∧
    own.Perm [("terminals", strings g.terminals), ("nonterminals", strings g.nonterminals),
      ("startSymbol", .string g.start), ("productions", .object productions)] ∧
    Padded (fun member => member.1 ∉ CodePoints.ofStrings memberNames) own members

variable {α : Type} {extra : α → Prop} {xs ys : List α}

theorem Padded.refl (extra : α → Prop) (xs : List α) : Padded extra xs xs := by
  induction xs with
  | nil => exact .nil
  | cons x xs ih => exact .keep ih

theorem Padded.mem (h : Padded extra xs ys) {x : α} (mem : x ∈ xs) : x ∈ ys := by
  induction h with
  | nil => exact mem
  | keep rest ih =>
    rcases List.mem_cons.1 mem with rfl | mem
    · exact List.mem_cons_self
    · exact List.mem_cons_of_mem _ (ih mem)
  | put other rest ih => exact List.mem_cons_of_mem _ (ih mem)

theorem Padded.mem_or_extra (h : Padded extra xs ys) {y : α} (mem : y ∈ ys) : y ∈ xs ∨ extra y := by
  induction h with
  | nil => exact .inl mem
  | keep rest ih =>
    rcases List.mem_cons.1 mem with rfl | mem
    · exact .inl List.mem_cons_self
    · exact (ih mem).imp_left (List.mem_cons_of_mem _)
  | put other rest ih =>
    rcases List.mem_cons.1 mem with rfl | mem
    · exact .inr other
    · exact ih mem

theorem member?_of_mem {name : Name} {value : Value} {members : List (Name × Value)}
    (mem : (name, value) ∈ members) (only : ∀ other, (name, other) ∈ members → other = value) :
    Value.member? name members = some value := by
  unfold Value.member?
  cases found : members.reverse.lookup name with
  | none =>
    have absent := List.lookup_eq_none_iff.1 found (name, value) (List.mem_reverse.2 mem)
    simp at absent
  | some other =>
    obtain ⟨before, behind, e, -⟩ := List.lookup_eq_some_iff.1 found
    have listed : (name, other) ∈ members := by
      rw [← List.mem_reverse, e]
      simp
    rw [only other listed]

theorem mapM_eq_ok {ε β γ : Type} {f : β → Except ε γ} {xs : List β} {ys : List γ}
    (h : List.Forall₂ (fun y x => f x = .ok y) ys xs) : xs.mapM f = .ok ys := by
  induction h with
  | nil => rfl
  | cons here others ih =>
    rw [List.mapM_cons, here, ih]
    rfl

theorem ofList_entries (d : Dictionary Name α) : Dictionary.ofList d.entries = d := by
  obtain ⟨entries, distinct⟩ := d
  have kept := Dictionary.entries_ofList distinct
  dsimp only
  generalize Dictionary.ofList entries = d at kept ⊢
  cases d
  cases kept
  rfl

/-! ### The parts of a description -/

theorem mapM_string? (texts : List Name) : (texts.map Value.string).mapM string? = some texts := by
  induction texts with
  | nil => rfl
  | cons text texts ih =>
    rw [List.map_cons, List.mapM_cons, ih]
    rfl

theorem filterMap_string? {symbols : List Value} {rhs : List Name}
    (h : Padded (fun v => ∀ text, v ≠ .string text) (rhs.map .string) symbols) :
    symbols.filterMap string? = rhs := by
  generalize own : rhs.map Value.string = listed at h
  induction h generalizing rhs with
  | nil => rw [List.map_eq_nil_iff.1 own]; rfl
  | keep rest ih =>
    obtain ⟨symbol, symbols, rfl, rfl, rfl⟩ := List.map_eq_cons_iff.1 own
    rw [List.filterMap_cons]
    exact congrArg (symbol :: ·) (ih rfl)
  | @put y xs ys other rest ih =>
    have none : string? y = none := by
      cases y with
      | string text => exact absurd rfl (other text)
      | _ => rfl
    rw [List.filterMap_cons, none]
    exact ih own

theorem alternativesOf_eq {entry : Name × List (List Name)} {member : Name × Value}
    (h : ListsAlternatives entry member) : alternativesOf member.1 member.2 = .ok entry.2 := by
  obtain ⟨-, alternatives, e, pairs⟩ := h
  rw [e]
  refine mapM_eq_ok (pairs.imp fun rhs v lists => ?_)
  obtain ⟨symbols, rfl, padded⟩ := lists
  exact congrArg Except.ok (filterMap_string? padded)

section

variable {g : Grammar} {members productions : List (Name × Value)}

theorem stringList_eq {key : Name} {texts : List Name}
    (h : Value.member? key members = some (strings texts)) : stringList members key = .ok texts := by
  unfold stringList
  rw [h]
  dsimp only [strings]
  rw [mapM_string?]

theorem map_fst_of_lists {entries : List (Name × List (List Name))}
    (lists : List.Forall₂ ListsAlternatives entries productions) :
    productions.map Prod.fst = entries.map Prod.fst := by
  induction lists with
  | nil => rfl
  | cons here others ih => rw [List.map_cons, List.map_cons, here.1, ih]

theorem productionsOf_eq (h : Value.member? "productions" members = some (.object productions))
    (lists : List.Forall₂ ListsAlternatives g.productions.entries productions) :
    productionsOf members = .ok g.productions := by
  have distinct : (productions.map Prod.fst).Nodup := by
    rw [map_fst_of_lists lists]
    exact g.productions.distinct
  have read : productions.mapM (fun entry => do return (entry.1, ← alternativesOf entry.1 entry.2)) =
      (.ok g.productions.entries : Except ShapeFault _) := by
    refine mapM_eq_ok (lists.imp fun entry member here => ?_)
    rw [alternativesOf_eq here, here.1]
    rfl
  unfold productionsOf
  rw [h]
  dsimp only
  rw [Dictionary.entries_ofList distinct, read]
  exact congrArg Except.ok (ofList_entries g.productions)

theorem member?_of_describes {own : List (Name × Value)}
    (same : own.Perm [("terminals", strings g.terminals), ("nonterminals", strings g.nonterminals),
      ("startSymbol", .string g.start), ("productions", .object productions)])
    (padded : Padded (fun member => member.1 ∉ CodePoints.ofStrings memberNames) own members) :
    Value.member? "terminals" members = some (strings g.terminals) ∧
    Value.member? "nonterminals" members = some (strings g.nonterminals) ∧
    Value.member? "startSymbol" members = some (.string g.start) ∧
    Value.member? "productions" members = some (.object productions) := by
  have present : ∀ member ∈ own, member ∈ members := fun _ => padded.mem
  -- A member of one of these names is none of those that were put in.
  have known : ∀ name ∈ CodePoints.ofStrings memberNames, ∀ value, (name, value) ∈ members → (name, value) ∈ own :=
    fun name listed value mem => (padded.mem_or_extra mem).resolve_right fun other => other listed
  simp only [same.mem_iff, List.mem_cons, List.not_mem_nil, or_false, Prod.mk.injEq] at present known
  refine ⟨?_, ?_, ?_, ?_⟩ <;>
  · refine member?_of_mem (present _ (by simp)) fun other mem => ?_
    simpa using known _ (by decide) other mem

theorem ofValue_of_describes {v : Value} (h : Describes g v) : ofValue v = .ok g := by
  obtain ⟨productions, own, members, rfl, lists, same, padded⟩ := h
  obtain ⟨terminals, nonterminals, start, listed⟩ := member?_of_describes same padded
  unfold ofValue
  dsimp only
  rw [stringList_eq terminals, stringList_eq nonterminals, start, productionsOf_eq listed lists]
  rfl

end

theorem listsAlternatives_self (entry : Name × List (List Name)) :
    ListsAlternatives entry (entry.1, .array (entry.2.map strings)) := by
  refine ⟨rfl, _, rfl, List.forall₂_map_right_iff.2 (List.forall₂_same.2 fun rhs _ => ?_)⟩
  exact ⟨_, rfl, .refl _ _⟩

theorem describes_toValue (g : Grammar) : Describes g g.toValue :=
  ⟨_, _, _, rfl,
    List.forall₂_map_right_iff.2 (List.forall₂_same.2 fun entry _ => listsAlternatives_self entry),
    .rfl, .refl _ _⟩

theorem spellable_strings {texts : List CodePoints} (h : ∀ text ∈ texts, text.isWellFormed = true) :
    (strings texts).Spellable := by
  refine spellable_array fun item mem => ?_
  obtain ⟨text, listed, rfl⟩ := List.mem_map.1 mem
  exact spellable_string (h text listed)

theorem spellable_toValue {g : Grammar} (h : g.Spelled) : g.toValue.Spellable := by
  simp only [Spelled, names, List.forall_mem_append, List.forall_mem_singleton] at h
  obtain ⟨⟨⟨terminals, nonterminals⟩, start⟩, productions⟩ := h
  have listed : (Value.object (g.productions.entries.map fun entry =>
      (entry.1, .array (entry.2.map strings)))).Spellable := by
    refine spellable_object fun member mem => ?_
    obtain ⟨entry, here, rfl⟩ := List.mem_map.1 mem
    have spelled := fun name own => productions name (List.mem_flatMap.2 ⟨entry, here, own⟩)
    refine ⟨spelled entry.1 List.mem_cons_self, spellable_array fun item mem => ?_⟩
    obtain ⟨rhs, alternative, rfl⟩ := List.mem_map.1 mem
    exact spellable_strings fun symbol mem =>
      spelled symbol (List.mem_cons_of_mem _ (List.mem_flatten.2 ⟨rhs, alternative, mem⟩))
  refine spellable_object fun member mem => ?_
  simp only [List.mem_cons, List.not_mem_nil, or_false] at mem
  rcases mem with rfl | rfl | rfl | rfl
  · exact ⟨CodePoints.isWellFormed_ofString _, spellable_strings terminals⟩
  · exact ⟨CodePoints.isWellFormed_ofString _, spellable_strings nonterminals⟩
  · exact ⟨CodePoints.isWellFormed_ofString _, spellable_string start⟩
  · exact ⟨CodePoints.isWellFormed_ofString _, listed⟩

theorem ofJson_of_ofValue {g : Grammar} {v : Value} {text : List Char} (h : ofValue v = .ok g)
    (written : Written v.lexemes text) : ofJson text = .ok g := by
  rw [ofJson, read_of_written written]
  dsimp only
  rw [h]

/-- A description without surrogates can be written, and every description is loaded from each text
that it is written in. It is also loaded from every value that has its members, whatever else is among
them and among the symbols of its alternatives. -/
theorem loads_back (g : Grammar) :
    (g.Spelled → ∃ text, Written g.toValue.lexemes text) ∧
    (∀ text, Written g.toValue.lexemes text → ofJson text = .ok g) ∧
    ∀ v, Describes g v → ofValue v = .ok g ∧ ∀ text, Written v.lexemes text → ofJson text = .ok g := by
  refine ⟨fun spelled => exists_written (spellable_toValue spelled), ?_, ?_⟩
  · intro text written
    exact ofJson_of_ofValue (ofValue_of_describes (describes_toValue g)) written
  · intro v describes
    have loaded := ofValue_of_describes describes
    exact ⟨loaded, fun text => ofJson_of_ofValue loaded⟩

/-- A start symbol whose one character needs two units to be escaped, and white space around it. -/
def smileyText : List Char := String.toList
  "\x7b\"terminals\":[],\"nonterminals\":[],\"startSymbol\":\n \"\\uD83D\\ude00\",\"productions\":\x7b\x7d\x7d"

/-- Members in another order, one more among them, and more values in an alternative. -/
def extendedValue : Value :=
  .object [("version", .number "2"), ("terminals", strings ["a"]),
    ("productions", .object [("S", .array [.array [.null, .string "a", .array []]])]),
    ("startSymbol", .string "S"), ("nonterminals", strings ["S"])]

theorem spellsString_smiley : SpellsString "😀" "\"\\uD83D\\ude00\"".toList := by
  have small : ∀ value < 16, IsHexDigit (Nat.digitChar value) value :=
    fun _ below => ⟨below, .inl rfl⟩
  have capital : ∀ value < 16, IsHexDigit (Nat.digitChar value).toUpper value :=
    fun _ below => ⟨below, .inr rfl⟩
  have high : SpellsUnit 0xD83D ['D', '8', '3', 'D'] :=
    .digits (capital 13 (by decide)) (small 8 (by decide)) (small 3 (by decide)) (capital 13 (by decide))
  have low : SpellsUnit 0xDE00 ['d', 'e', '0', '0'] :=
    .digits (small 13 (by decide)) (small 14 (by decide)) (small 0 (by decide)) (small 0 (by decide))
  exact ⟨_, _, rfl, .cons (.pair (by decide) high low) .nil, rfl⟩

theorem written_smileyText : Written (toValue ⟨[], [], "😀", .empty⟩).lexemes smileyText := by
  have name : ∀ text ∈ memberNames, Spells (.string text) ('"' :: (text.toList ++ ['"'])) := by
    have plain : ∀ text ∈ memberNames, text.toList.all isPlain = true := by decide
    exact fun text mem => .string (spellsString_of_plain (plain text mem))
  have productions : Written [.comma, .string "productions", .colon, .openObject, .closeObject,
      .closeObject] ",\"productions\":\x7b\x7d\x7d".toList :=
    .next .comma (.next (name _ (by decide)) (.next .colon (.next .openObject (.next .closeObject
      (.next .closeObject (.nil (List.forall_mem_nil _)))))))
  have start : Written [.comma, .string "startSymbol", .colon, .string "😀", .comma,
      .string "productions", .colon, .openObject, .closeObject, .closeObject]
      ",\"startSymbol\":\n \"\\uD83D\\ude00\",\"productions\":\x7b\x7d\x7d".toList :=
    .next .comma (.next (name _ (by decide)) (.next .colon
      (.cons (List.all_eq_true.1 (rfl : ['\n', ' '].all isJsonBlank = true))
        (.string spellsString_smiley) productions)))
  exact .next .openObject (.next (name _ (by decide)) (.next .colon (.next .openArray (.next .closeArray
    (.next .comma (.next (name _ (by decide)) (.next .colon (.next .openArray (.next .closeArray
      start)))))))))

theorem describes_extendedValue :
    Describes ⟨["a"], ["S"], "S", .ofList [("S", [["a"]])]⟩ extendedValue := by
  have noString : ∀ v ∈ [Value.null, .array []], ∀ text, v ≠ .string text := by simp
  have symbols : ListsSymbols ["a"] (.array [.null, .string "a", .array []]) :=
    ⟨_, rfl, .put (noString _ (by simp)) (.keep (.put (noString _ (by simp)) .nil))⟩
  exact ⟨[("S", .array [.array [.null, .string "a", .array []]])], _, _, rfl,
    .cons ⟨rfl, _, rfl, .cons symbols .nil⟩ .nil, .cons _ (List.reverse_perm [_, _, _]),
    .put (by decide) (.refl _ _)⟩

theorem loads_back_extended : (∃ text, Written (toValue ⟨[], [], "😀", .empty⟩).lexemes text) ∧
    ofJson smileyText = .ok ⟨[], [], "😀", .empty⟩ ∧
    ofValue extendedValue = .ok ⟨["a"], ["S"], "S", .ofList [("S", [["a"]])]⟩ :=
  ⟨(loads_back _).1 (by decide), (loads_back _).2.1 _ written_smileyText,
    ((loads_back _).2.2 _ describes_extendedValue).1⟩

/-! ### Texts that are not loaded -/

def LoadFault.IsRejection : LoadFault → Prop
  | .json .. | .shape _ => True
  | .overlongInteger _ => False

def LoadsOrRejects (text : List Char) : Prop :=
  (∃ g, ofJson text = .ok g) ∨ ∃ fault, ofJson text = .error fault ∧ fault.IsRejection

variable {text : List Char} {digits : Nat}

theorem ofJson_overlong_iff :
    ofJson text = .error (.overlongInteger digits) ↔ MeetsOverlong text digits := by
  rw [← read_overlong_iff, ofJson]
  cases Json.read text with
  | error fault =>
    cases fault with
    | malformed flaw offset => constructor <;> exact nofun
    | overlongInteger found =>
      constructor <;>
      · rintro ⟨⟩
        rfl
  | ok value =>
    dsimp only
    cases ofValue value <;> constructor <;> exact nofun

theorem loadsOrRejects_iff :
    LoadsOrRejects text ↔ ∀ digits, ofJson text ≠ .error (.overlongInteger digits) := by
  unfold LoadsOrRejects
  cases ofJson text with
  | ok g => exact ⟨fun _ _ => nofun, fun _ => .inl ⟨g, rfl⟩⟩
  | error fault =>
    cases fault with
    | json text flaw offset => exact ⟨fun _ _ => nofun, fun _ => .inr ⟨_, rfl, trivial⟩⟩
    | shape fault => exact ⟨fun _ _ => nofun, fun _ => .inr ⟨_, rfl, trivial⟩⟩
    | overlongInteger digits =>
      constructor
      · rintro (⟨g, ⟨⟩⟩ | ⟨fault, ⟨⟩, ⟨⟩⟩)
      · exact fun other => absurd rfl (other digits)

/-- Whatever a text contains, it is loaded or rejected, unless an integer with too many digits stands
where a number may, even one that would not be looked at. Then this is the fault. -/
theorem loads_or_rejects (text : List Char) :
    (LoadsOrRejects text ↔ ∀ digits, ¬MeetsOverlong text digits) ∧
    (∀ digits, ofJson text = .error (.overlongInteger digits) ↔ MeetsOverlong text digits) ∧
    ∀ digits, MeetsOverlong text digits → ∃ offset, StartsOverlong (text.drop offset) digits := by
  refine ⟨?_, fun digits => ofJson_overlong_iff, fun digits => MeetsOverlong.startsOverlong⟩
  rw [loadsOrRejects_iff]
  exact forall_congr' fun digits => not_congr ofJson_overlong_iff

/-- Numbers of every kind where none is looked at. -/
theorem loads_or_rejects_numbers : LoadsOrRejects
    "\x7b\"startSymbol\": \"S\", \"version\": [-0, 1e400, NaN, -Infinity]\x7d".toList :=
  (loads_or_rejects _).1.2 fun _ => not_meetsOverlong_of_short (by decide)

def withVersion (digits : Nat) : List Char :=
  "\x7b\"version\": ".toList ++ (List.replicate digits '1' ++
    ',' :: (" \"terminals\": [\"a\"], \"nonterminals\": [\"S\"], \"startSymbol\": \"S\", " ++
      "\"productions\": \x7b\"S\": [[\"a\"]]\x7d\x7d").toList)

theorem isInteger_ones {digits : Nat} (some : 0 < digits) : IsInteger (List.replicate digits '1') := by
  have ones : ∀ c ∈ List.replicate digits '1', c = '1' := fun c => List.eq_of_mem_replicate
  refine ⟨⟨fun empty => ?_, fun c mem => ones c mem ▸ rfl⟩, fun zero => ?_⟩
  · exact absurd (List.replicate_eq_nil_iff _ |>.1 empty) (Nat.ne_of_gt some)
  · cases ones '0' (List.mem_of_head? zero)

theorem ofJson_withVersion {digits : Nat} (long : maxIntegerDigits < digits) :
    ofJson (withVersion digits) = .error (.overlongInteger digits) := by
  have written : Written [.openObject, .string "version", .colon] "\x7b\"version\": ".toList :=
    .next .openObject (.next (.string (spellsString_of_plain (by decide)))
      (.next .colon (.nil (List.all_eq_true.1 (rfl : [' '].all isJsonBlank = true)))))
  have takes : TakesNumber [.openObject, .string "version", .colon] :=
    ⟨.object [("version", .number "0")], [.closeObject], rfl⟩
  have ends : ∀ rest, EndsNumber (',' :: rest) := by
    rintro rest c ⟨⟩
    decide
  exact ofJson_overlong_iff.2 (meetsOverlong_of_written written takes (.inl rfl)
    (isInteger_ones (Nat.zero_lt_of_lt long)) List.length_replicate long (ends _))

theorem withVersion_not_rejected : ¬LoadsOrRejects (withVersion 4301) := by
  intro answered
  exact loadsOrRejects_iff.1 answered 4301 (ofJson_withVersion (by decide))

end DeclarationChecker.Grammar
