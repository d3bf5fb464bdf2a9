import DeclarationChecker.Proofs.Declaration.Nesting

set_option autoImplicit false

namespace DeclarationChecker.Declaration

open Text Token SyntaxTree Grammar

def marks : List String := punctuationMarks.map fun mark => String.ofList [mark]

theorem terminals_eq : declarationTerminals =
    keywords ++ (["ident", "number"] ++ marks ++ [".."]) := by decide

theorem keyword_mem_terminals (word : String) (h : word ∈ keywords) :
    word ∈ declarationTerminals := by
  simp [terminals_eq, h]

theorem mark_mem_terminals (mark : String) (h : mark ∈ marks) : mark ∈ declarationTerminals := by
  simp [terminals_eq, h]

theorem mem_terminals_iff {symbol : String} :
    ↑symbol ∈ Grammar.declarations.terminals ↔ symbol ∈ declarationTerminals := by
  simp [Grammar.declarations, CodePoints.ofStrings]

def rulesOf (name : String) : List (List String) := (declarationRules.lookup name).getD []

theorem lookup_map_names {β γ : Type} (f : β → γ) (rules : List (String × β)) (name : String) :
    (rules.map fun rule => (CodePoints.ofString rule.1, f rule.2)).lookup ↑name =
      (rules.lookup name).map f := by
  induction rules with
  | nil => rfl
  | cons rule rules ih =>
    rw [List.map_cons, Dictionary.lookup_cons_eq_ite, Dictionary.lookup_cons_eq_ite, ih,
      apply_ite (Option.map f)]
    simp

theorem alternatives_eq (name : String) :
    Grammar.declarations.alternatives name = (rulesOf name).map CodePoints.ofStrings := by
  have found : declarationProductions.get? name =
      (declarationRules.lookup name).map (List.map CodePoints.ofStrings) :=
    lookup_map_names (List.map CodePoints.ofStrings) declarationRules name
  change (declarationProductions.get? name).getD [] = _
  rw [found, rulesOf]
  cases declarationRules.lookup name <;> rfl

theorem rulesOf_terminal : ∀ symbol ∈ declarationTerminals, rulesOf symbol = [] := by decide

def Matches (form : List String) (tokens : List Token) : Prop :=
  (∀ t ∈ tokens, t.kind.Spells t.text) ∧
    Grammar.declarations.Yields (CodePoints.ofStrings form) (terminals tokens)

/-! From a form to trees: each symbol takes its share from the left. -/

namespace Matches

variable {form : List String} {ts : List Token}

theorem nil (h : Matches [] ts) : ts = [] :=
  List.map_eq_nil_iff.1 (yields_nil_iff.1 h.2)

theorem expand {name : String} (h : Matches (name :: form) ts)
    (notTerminal : name ∉ declarationTerminals) : ∃ rhs ∈ rulesOf name, Matches (rhs ++ form) ts := by
  obtain ⟨rhs, mem, rest⟩ := (yields_nonterminal_iff (mt mem_terminals_iff.1 notTerminal)).1 h.2
  rw [alternatives_eq] at mem
  obtain ⟨rule, listed, rfl⟩ := List.mem_map.1 mem
  exact ⟨rule, listed, h.1, by rwa [CodePoints.ofStrings, List.map_append]⟩

theorem terminal {symbol : String} (h : Matches (symbol :: form) ts)
    (mem : symbol ∈ declarationTerminals) :
    ∃ t rest, ts = t :: rest ∧ t.kind.Spells t.text ∧ t.terminal = symbol ∧ Matches form rest := by
  have none : Grammar.declarations.alternatives symbol = [] := by
    rw [alternatives_eq, rulesOf_terminal symbol mem]
    rfl
  obtain ⟨word, e, yields⟩ := (yields_terminal_iff (mem_terminals_iff.2 mem) none).1 h.2
  obtain ⟨t, rest, rfl, named, rfl⟩ := List.map_eq_cons_iff.1 e
  obtain ⟨first, others⟩ := List.forall_mem_cons.1 h.1
  exact ⟨t, rest, rfl, first, named, others, yields⟩

theorem keyword {word : String} (h : Matches (word :: form) ts) (mem : word ∈ keywords) :
    ∃ (t : Keyword word) (rest : List Token), ts = t.val :: rest ∧ Matches form rest := by
  have sorts : ∀ word ∈ keywords, kindOf word = .keyword := by decide
  obtain ⟨t, rest, rfl, spelled, e, others⟩ := h.terminal (keyword_mem_terminals word mem)
  exact ⟨⟨t, isKeyword_of_terminal spelled e (sorts word mem)⟩, rest, rfl, others⟩

theorem mark {mark : String} (h : Matches (mark :: form) ts) (mem : mark ∈ marks) :
    ∃ (t : Mark mark) (rest : List Token), ts = t.val :: rest ∧ Matches form rest := by
  have sorts : ∀ mark ∈ marks, kindOf mark = .punctuation := by decide
  obtain ⟨t, rest, rfl, spelled, e, others⟩ := h.terminal (mark_mem_terminals mark mem)
  exact ⟨⟨t, isPunctuation_of_terminal spelled e (sorts mark mem)⟩, rest, rfl, others⟩

theorem identifier (h : Matches ("ident" :: form) ts) :
    ∃ (t : Identifier) (rest : List Token), ts = t.val :: rest ∧ Matches form rest := by
  obtain ⟨t, rest, rfl, spelled, e, others⟩ := h.terminal (by decide)
  exact ⟨⟨t, kind_of_terminal spelled e (by decide)⟩, rest, rfl, others⟩

theorem number (h : Matches ("number" :: form) ts) :
    ∃ (t : Number) (rest : List Token), ts = t.val :: rest ∧ Matches form rest := by
  obtain ⟨t, rest, rfl, spelled, e, others⟩ := h.terminal (by decide)
  exact ⟨⟨t, kind_of_terminal spelled e (by decide)⟩, rest, rfl, others⟩

theorem dots (h : Matches (".." :: form) ts) :
    ∃ (t : Dots) (rest : List Token), ts = t.val :: rest ∧ Matches form rest := by
  obtain ⟨t, rest, rfl, spelled, e, others⟩ := h.terminal (by decide)
  exact ⟨⟨t, kind_of_terminal spelled e (by decide)⟩, rest, rfl, others⟩

end Matches

/-- Whatever begins with some symbols has the tokens of a tree at its head. -/
def Recovers {ι : Type} (symbols : List String) (tokens : ι → List Token) : Prop :=
  ∀ form ts, Matches (symbols ++ form) ts → ∃ i rest, ts = tokens i ++ rest ∧ Matches form rest

theorem recovers_items {ι : Type} {name : String} (item : List String) {tokens : ι → List Token}
    (alternatives : rulesOf name = [[], item ++ [name]])
    (notTerminal : name ∉ declarationTerminals) (nonempty : ∀ i, tokens i ≠ [])
    (hitem : Recovers item tokens) :
    Recovers [name] fun items : List ι => items.flatMap tokens := by
  intro form ts h
  induction total : ts.length using Nat.strongRecOn generalizing ts with
  | ind n ih =>
    obtain ⟨rhs, mem, h'⟩ := h.expand notTerminal
    rw [alternatives, List.mem_cons, List.mem_singleton] at mem
    rcases mem with rfl | rfl
    · exact ⟨[], ts, rfl, h'⟩
    · rw [List.append_assoc] at h'
      obtain ⟨i, more, rfl, hmore⟩ := hitem _ ts h'
      have positive := List.length_pos_iff.2 (nonempty i)
      rw [List.length_append] at total
      obtain ⟨items, rest, rfl, hrest⟩ := ih more.length (by omega) more hmore rfl
      exact ⟨i :: items, rest, by simp, hrest⟩

theorem otherNames_recovers : Recovers ["IdentTail"] Names.otherTokens := by
  refine recovers_items [",", "ident"] rfl (by decide) (by simp) fun form ts h => ?_
  obtain ⟨comma, ts₁, rfl, h₁⟩ := h.mark (by decide)
  obtain ⟨name, ts₂, rfl, h₂⟩ := h₁.identifier
  exact ⟨(comma, name), ts₂, rfl, h₂⟩

theorem names_recovers : Recovers ["IdentList"] Names.tokens := by
  intro form ts h
  obtain ⟨rhs, mem, h⟩ := h.expand (by decide)
  obtain rfl := List.mem_singleton.1 mem
  obtain ⟨first, ts₁, rfl, h₁⟩ := h.identifier
  obtain ⟨others, ts₂, rfl, h₂⟩ := otherNames_recovers _ _ h₁
  exact ⟨⟨first, others⟩, ts₂, rfl, h₂⟩

theorem size_recovers :
    Recovers ["StringSizeOpt"] fun size : Option Size => (size.map Size.tokens).getD [] := by
  intro form ts h
  obtain ⟨rhs, mem, h⟩ := h.expand (by decide)
  replace mem : rhs ∈ [[], ["[", "number", "]"]] := mem
  rw [List.mem_cons, List.mem_singleton] at mem
  rcases mem with rfl | rfl
  · exact ⟨none, ts, rfl, h⟩
  · obtain ⟨opening, ts₁, rfl, h₁⟩ := h.mark (by decide)
    obtain ⟨number, ts₂, rfl, h₂⟩ := h₁.number
    obtain ⟨closing, ts₃, rfl, h₃⟩ := h₂.mark (by decide)
    exact ⟨some ⟨opening, number, closing⟩, ts₃, rfl, h₃⟩

theorem primitive_recovers (type : PrimitiveType) :
    Recovers [type.name] fun word : {t // primitive? t = some type} => [word.val] := by
  intro form ts h
  have named : type.name ∈ keywords ∧ PrimitiveType.ofName? type.name = some type := by
    cases type <;> decide
  obtain ⟨word, ts₁, rfl, h₁⟩ := h.keyword named.1
  have e : primitive? word.val = some type := by
    have passed := word.property
    simp only [Token.isKeyword, Bool.and_eq_true, decide_eq_true_eq] at passed
    rw [primitive?, if_pos passed.1, passed.2, named.2]
  exact ⟨⟨word.val, e⟩, ts₁, rfl, h₁⟩

theorem type_recovers : Recovers ["Type"] TypeExpr.tokens := by
  intro form ts h
  induction total : ts.length using Nat.strongRecOn generalizing ts with
  | ind n ih =>
    obtain ⟨rhs, mem, h⟩ := h.expand (by decide)
    replace mem : rhs ∈ [["integer"], ["real"], ["char"], ["boolean"], ["string", "StringSizeOpt"],
      ["array", "[", "number", "..", "number", "]", "of", "Type"]] := mem
    simp only [List.mem_cons, List.not_mem_nil, or_false] at mem
    have primitive : ∀ type : PrimitiveType, rhs = [type.name] →
        ∃ t rest, ts = TypeExpr.tokens t ++ rest ∧ Matches form rest := by
      rintro type rfl
      obtain ⟨word, ts₁, rfl, h₁⟩ := primitive_recovers type form ts h
      exact ⟨⟨[], .primitive word.val type word.property⟩, ts₁, rfl, h₁⟩
    rcases mem with e | e | e | e | rfl | rfl
    · exact primitive .integer e
    · exact primitive .real e
    · exact primitive .char e
    · exact primitive .boolean e
    · obtain ⟨word, ts₁, rfl, h₁⟩ := h.keyword (by decide)
      obtain ⟨size, ts₂, rfl, h₂⟩ := size_recovers _ _ h₁
      refine ⟨⟨[], .string word size⟩, ts₂, ?_, h₂⟩
      cases size <;> rfl
    · obtain ⟨array, ts₁, rfl, h₁⟩ := h.keyword (by decide)
      obtain ⟨opening, ts₂, rfl, h₂⟩ := h₁.mark (by decide)
      obtain ⟨low, ts₃, rfl, h₃⟩ := h₂.number
      obtain ⟨dots, ts₄, rfl, h₄⟩ := h₃.dots
      obtain ⟨high, ts₅, rfl, h₅⟩ := h₄.number
      obtain ⟨closing, ts₆, rfl, h₆⟩ := h₅.mark (by decide)
      obtain ⟨of, ts₇, rfl, h₇⟩ := h₆.keyword (by decide)
      simp only [List.length_cons] at total
      obtain ⟨t, rest, rfl, hrest⟩ := ih ts₇.length (by omega) ts₇ h₇ rfl
      exact ⟨⟨⟨array, opening, low, dots, high, closing, of⟩ :: t.ranges, t.element⟩, rest, rfl,
        hrest⟩

theorem variables_recovers : Recovers ["VarDecl"] Variables.tokens := by
  intro form ts h
  obtain ⟨rhs, mem, h⟩ := h.expand (by decide)
  obtain rfl := List.mem_singleton.1 mem
  obtain ⟨var, ts₁, rfl, h₁⟩ := h.keyword (by decide)
  obtain ⟨names, ts₂, rfl, h₂⟩ := names_recovers _ _ h₁
  obtain ⟨colon, ts₃, rfl, h₃⟩ := h₂.mark (by decide)
  obtain ⟨type, ts₄, rfl, h₄⟩ := type_recovers _ _ h₃
  obtain ⟨semicolon, ts₅, rfl, h₅⟩ := h₄.mark (by decide)
  exact ⟨⟨var, names, colon, type, semicolon⟩, ts₅, by simp [Variables.tokens, Variables.tail], h₅⟩

theorem section_recovers : Recovers ["ParamSection"] SyntaxTree.Section.tokens := by
  intro form ts h
  obtain ⟨rhs, mem, h⟩ := h.expand (by decide)
  obtain rfl := List.mem_singleton.1 mem
  obtain ⟨names, ts₁, rfl, h₁⟩ := names_recovers _ _ h
  obtain ⟨colon, ts₂, rfl, h₂⟩ := h₁.mark (by decide)
  obtain ⟨type, ts₃, rfl, h₃⟩ := type_recovers _ _ h₂
  exact ⟨⟨names, colon, type⟩, ts₃, by simp [SyntaxTree.Section.tokens], h₃⟩

theorem otherSections_recovers : Recovers ["ParamSectionTail"] Parameters.otherTokens := by
  refine recovers_items [";", "ParamSection"] rfl (by decide) (by simp) fun form ts h => ?_
  obtain ⟨semicolon, ts₁, rfl, h₁⟩ := h.mark (by decide)
  obtain ⟨s, ts₂, rfl, h₂⟩ := section_recovers _ _ h₁
  exact ⟨(semicolon, s), ts₂, rfl, h₂⟩

theorem parameters_recovers : Recovers ["ParamListOpt"] Parameters.tokens := by
  intro form ts h
  obtain ⟨rhs, mem, h⟩ := h.expand (by decide)
  replace mem : rhs ∈ [[], ["(", "ParamBody", ")"]] := mem
  rw [List.mem_cons, List.mem_singleton] at mem
  rcases mem with rfl | rfl
  · exact ⟨.absent, ts, rfl, h⟩
  obtain ⟨opening, ts₁, rfl, h₁⟩ := h.mark (by decide)
  obtain ⟨rhs, mem, h₁⟩ := h₁.expand (by decide)
  replace mem : rhs ∈ [[], ["ParamSections"]] := mem
  rw [List.mem_cons, List.mem_singleton] at mem
  rcases mem with rfl | rfl
  · obtain ⟨closing, ts₂, rfl, h₂⟩ := h₁.mark (by decide)
    exact ⟨.empty opening closing, ts₂, rfl, h₂⟩
  · obtain ⟨rhs, mem, h₁⟩ := h₁.expand (by decide)
    obtain rfl := List.mem_singleton.1 mem
    obtain ⟨first, ts₂, rfl, h₂⟩ := section_recovers _ _ h₁
    obtain ⟨others, ts₃, rfl, h₃⟩ := otherSections_recovers _ _ h₂
    obtain ⟨closing, ts₄, rfl, h₄⟩ := h₃.mark (by decide)
    exact ⟨.listed opening first others closing, ts₄, by simp [Parameters.tokens], h₄⟩

theorem procedure_recovers :
    Recovers ["procedure", "ident", "ParamListOpt", ";"] Heading.tokens := by
  intro form ts h
  obtain ⟨keyword, ts₁, rfl, h₁⟩ := h.keyword (by decide)
  obtain ⟨name, ts₂, rfl, h₂⟩ := h₁.identifier
  obtain ⟨list, ts₃, rfl, h₃⟩ := parameters_recovers _ _ h₂
  obtain ⟨semicolon, ts₄, rfl, h₄⟩ := h₃.mark (by decide)
  have opens : (keyword.val.isKeyword "procedure" || keyword.val.isKeyword "function") = true :=
    Bool.or_eq_true_iff.2 (.inl keyword.property)
  exact ⟨⟨⟨keyword.val, opens⟩, name, list, none, Token.not_isKeyword keyword.property (by decide),
    semicolon⟩, ts₄, by simp [Heading.tokens, Heading.tail, Heading.returnedTokens], h₄⟩

theorem function_recovers :
    Recovers ["function", "ident", "ParamListOpt", ":", "Type", ";"] Heading.tokens := by
  intro form ts h
  obtain ⟨keyword, ts₁, rfl, h₁⟩ := h.keyword (by decide)
  obtain ⟨name, ts₂, rfl, h₂⟩ := h₁.identifier
  obtain ⟨list, ts₃, rfl, h₃⟩ := parameters_recovers _ _ h₂
  obtain ⟨colon, ts₄, rfl, h₄⟩ := h₃.mark (by decide)
  obtain ⟨type, ts₅, rfl, h₅⟩ := type_recovers _ _ h₄
  obtain ⟨semicolon, ts₆, rfl, h₆⟩ := h₅.mark (by decide)
  have opens : (keyword.val.isKeyword "procedure" || keyword.val.isKeyword "function") = true :=
    Bool.or_eq_true_iff.2 (.inr keyword.property)
  exact ⟨⟨⟨keyword.val, opens⟩, name, list, some (colon, type), keyword.property, semicolon⟩, ts₆,
    by simp [Heading.tokens, Heading.tail, Heading.returnedTokens], h₆⟩

theorem closing_recovers : Recovers ["EndOpt"] fun semicolon : Option (Mark ";") =>
    (semicolon.map Subtype.val).toList := by
  intro form ts h
  obtain ⟨rhs, mem, h⟩ := h.expand (by decide)
  replace mem : rhs ∈ [[], [";"]] := mem
  rw [List.mem_cons, List.mem_singleton] at mem
  rcases mem with rfl | rfl
  · exact ⟨none, ts, rfl, h⟩
  · obtain ⟨semicolon, ts₁, rfl, h₁⟩ := h.mark (by decide)
    exact ⟨some semicolon, ts₁, rfl, h₁⟩

/-- A heading and what follows it, where blocks can be recovered from fewer tokens. -/
theorem subprogram_recovers {form : List String} {n : Nat}
    (ih : ∀ form ts, ts.length < n → Matches ("DeclarationList" :: form) ts →
      ∃ b rest, ts = Block.tokens b ++ rest ∧ Matches form rest)
    (heading : Heading) {ts : List Token} (shorter : ts.length < n)
    (h : Matches ("DeclarationTail" :: "DeclarationList" :: form) ts) :
    ∃ b rest, heading.tokens ++ ts = Block.tokens b ++ rest ∧ Matches form rest := by
  obtain ⟨rhs, mem, h⟩ := h.expand (by decide)
  replace mem : rhs ∈ [["forward", ";"], ["Body"]] := mem
  rw [List.mem_cons, List.mem_singleton] at mem
  rcases mem with rfl | rfl
  · obtain ⟨word, ts₁, rfl, h₁⟩ := h.keyword (by decide)
    obtain ⟨semicolon, ts₂, rfl, h₂⟩ := h₁.mark (by decide)
    simp only [List.length_cons] at shorter
    obtain ⟨more, rest, rfl, hrest⟩ := ih form ts₂ (by omega) h₂
    exact ⟨.forward heading word semicolon more, rest, by simp [Block.tokens], hrest⟩
  · obtain ⟨rhs, mem, h⟩ := h.expand (by decide)
    obtain rfl := List.mem_singleton.1 mem
    obtain ⟨opening, ts₁, rfl, h₁⟩ := h.keyword (by decide)
    simp only [List.length_cons] at shorter
    obtain ⟨inner, ts₂, rfl, h₂⟩ := ih _ ts₁ (by omega) h₁
    obtain ⟨closing, ts₃, rfl, h₃⟩ := h₂.keyword (by decide)
    obtain ⟨semicolon, ts₄, rfl, h₄⟩ := closing_recovers _ _ h₃
    simp only [List.length_append, List.length_cons] at shorter
    obtain ⟨more, rest, rfl, hrest⟩ := ih form ts₄ (by omega) h₄
    exact ⟨.defined heading opening inner closing semicolon more, rest, by simp [Block.tokens],
      hrest⟩

theorem block_recovers : Recovers ["DeclarationList"] Block.tokens := by
  intro form ts h
  -- A block inside a body and the block behind a declaration both have fewer tokens.
  induction total : ts.length using Nat.strongRecOn generalizing form ts with
  | ind n ih =>
    have ih : ∀ form ts, ts.length < n → Matches ("DeclarationList" :: form) ts →
        ∃ b rest, ts = Block.tokens b ++ rest ∧ Matches form rest := fun form ts shorter h =>
      ih ts.length shorter form ts h rfl
    obtain ⟨rhs, mem, h⟩ := h.expand (by decide)
    replace mem : rhs ∈ [[], ["Declaration", "DeclarationList"]] := mem
    rw [List.mem_cons, List.mem_singleton] at mem
    rcases mem with rfl | rfl
    · exact ⟨.empty, ts, rfl, h⟩
    obtain ⟨rhs, mem, h⟩ := h.expand (by decide)
    replace mem : rhs ∈ [["VarDecl"], ["ProcedureDecl"], ["FunctionDecl"]] := mem
    simp only [List.mem_cons, List.not_mem_nil, or_false] at mem
    rcases mem with rfl | rfl | rfl
    · obtain ⟨list, ts₁, rfl, h₁⟩ := variables_recovers _ _ h
      rw [List.length_append, Variables.tokens, List.length_cons] at total
      obtain ⟨more, rest, rfl, hrest⟩ := ih _ ts₁ (by omega) h₁
      exact ⟨.var list more, rest, by simp [Block.tokens], hrest⟩
    · obtain ⟨rhs, mem, h⟩ := h.expand (by decide)
      obtain rfl := List.mem_singleton.1 mem
      obtain ⟨heading, ts₁, rfl, h₁⟩ := procedure_recovers _ _ h
      rw [List.length_append, Heading.tokens, List.length_cons] at total
      exact subprogram_recovers ih heading (by omega) h₁
    · obtain ⟨rhs, mem, h⟩ := h.expand (by decide)
      obtain rfl := List.mem_singleton.1 mem
      obtain ⟨heading, ts₁, rfl, h₁⟩ := function_recovers _ _ h
      rw [List.length_append, Heading.tokens, List.length_cons] at total
      exact subprogram_recovers ih heading (by omega) h₁

/-! From trees to forms. -/

def Produces (form : List String) (tokens : List Token) : Prop :=
  Grammar.declarations.Yields (CodePoints.ofStrings form) (terminals tokens)

namespace Produces

theorem nil : Produces [] [] := .done

theorem append {left right : List String} {xs ys : List Token} (hx : Produces left xs)
    (hy : Produces right ys) : Produces (left ++ right) (xs ++ ys) := by
  have both := Yields.append hx hy
  rw [CodePoints.ofStrings, CodePoints.ofStrings, ← List.map_append, ← List.map_append] at both
  exact both

theorem expand {name : String} {xs : List Token} (rhs : List String) (h : Produces rhs xs)
    (mem : rhs ∈ rulesOf name) : Produces [name] xs := by
  have listed : CodePoints.ofStrings rhs ∈ Grammar.declarations.alternatives name := by
    rw [alternatives_eq]
    exact List.mem_map_of_mem mem
  refine Yields.expand listed ?_
  rwa [List.map_nil, List.append_nil]

theorem terminal {t : Token} {symbol : String} (h : t.terminal = symbol)
    (mem : symbol ∈ declarationTerminals) : Produces [symbol] [t] := by
  change Grammar.declarations.Yields [↑symbol] [t.terminal]
  rw [h]
  exact Yields.terminal (mem_terminals_iff.2 mem) .done

theorem keyword {word : String} (t : Keyword word) (mem : word ∈ keywords) :
    Produces [word] [t.val] :=
  terminal (terminal_of_isKeyword t.property) (keyword_mem_terminals word mem)

theorem mark {mark : String} (t : Mark mark) (mem : mark ∈ marks) : Produces [mark] [t.val] :=
  terminal (terminal_of_isPunctuation t.property) (mark_mem_terminals mark mem)

theorem identifier (t : Identifier) : Produces ["ident"] [t.val] :=
  terminal (terminal_of_identifier t.property) (by decide)

theorem number (t : Number) : Produces ["number"] [t.val] :=
  terminal (terminal_of_number t.property) (by decide)

theorem dots (t : Dots) : Produces [".."] [t.val] :=
  terminal (terminal_of_dots t.property) (by decide)

theorem items {ι : Type} {name : String} (item : List String) {tokens : ι → List Token}
    (alternatives : rulesOf name = [[], item ++ [name]]) (hitem : ∀ i, Produces item (tokens i)) (items : List ι) :
    Produces [name] (items.flatMap tokens) := by
  induction items with
  | nil => exact .expand [] .nil (by simp [alternatives])
  | cons i items ih => exact .expand _ ((hitem i).append ih) (by simp [alternatives])

end Produces

theorem names_produced (n : Names) : Produces ["IdentList"] n.tokens := by
  have other : ∀ other : Mark "," × Identifier,
      Produces [",", "ident"] [other.1.val, other.2.val] := fun other =>
    (Produces.mark other.1 (by decide)).append (Produces.identifier other.2)
  have others : Produces ["IdentTail"] (Names.otherTokens n.others) :=
    .items [",", "ident"] rfl other n.others
  exact .expand _ ((Produces.identifier n.first).append others) (List.mem_singleton.2 rfl)

theorem primitive_produced {word : Token} {type : PrimitiveType} (h : primitive? word = some type) :
    Produces ["Type"] [word] := by
  have named := terminal_of_primitive h
  refine .expand [type.name] (.terminal named ?_) ?_
  · cases type <;> decide
  · cases type <;> decide

theorem range_produced (r : Range) :
    Produces ["array", "[", "number", "..", "number", "]", "of"] r.tokens :=
  (Produces.keyword r.array (by decide)).append <|
    (Produces.mark r.opening (by decide)).append <|
    (Produces.number r.low).append <| (Produces.dots r.dots).append <|
    (Produces.number r.high).append <| (Produces.mark r.closing (by decide)).append <|
    Produces.keyword r.of (by decide)

theorem element_produced (e : Element) : Produces ["Type"] e.tokens := by
  cases e with
  | primitive word type named => exact primitive_produced named
  | string word size =>
    have tail : Produces ["StringSizeOpt"] (Element.string word size).tail := by
      cases size with
      | none => exact .expand [] .nil (by decide)
      | some size =>
        refine .expand ["[", "number", "]"] ?_ (by decide)
        exact (Produces.mark size.opening (by decide)).append <|
          (Produces.number size.number).append <| Produces.mark size.closing (by decide)
    exact .expand ["string", "StringSizeOpt"] ((Produces.keyword word (by decide)).append tail)
      (by decide)

theorem type_produced (t : TypeExpr) : Produces ["Type"] t.tokens := by
  obtain ⟨ranges, element⟩ := t
  induction ranges with
  | nil => exact element_produced element
  | cons r ranges ih =>
    refine .expand ["array", "[", "number", "..", "number", "]", "of", "Type"] ?_ (by decide)
    have whole := (range_produced r).append ih
    rw [TypeExpr.tokens, ← List.append_assoc] at whole
    exact whole

theorem variables_produced (v : Variables) : Produces ["VarDecl"] v.tokens := by
  refine .expand ["var", "IdentList", ":", "Type", ";"] ?_ (by decide)
  exact (Produces.keyword v.var (by decide)).append <| (names_produced v.names).append <|
    (Produces.mark v.colon (by decide)).append <| (type_produced v.type).append <|
    Produces.mark v.semicolon (by decide)

theorem section_produced (s : SyntaxTree.Section) : Produces ["ParamSection"] s.tokens := by
  refine .expand ["IdentList", ":", "Type"] ?_ (by decide)
  exact (names_produced s.names).append <| (Produces.mark s.colon (by decide)).append <|
    type_produced s.type

theorem parameters_produced (p : Parameters) : Produces ["ParamListOpt"] p.tokens := by
  cases p with
  | absent => exact .expand [] .nil (by decide)
  | empty opening closing =>
    refine .expand ["(", "ParamBody", ")"] ?_ (by decide)
    have body : Produces ["ParamBody"] [] := .expand [] .nil (by decide)
    exact (Produces.mark opening (by decide)).append <| body.append <|
      Produces.mark closing (by decide)
  | listed opening first others closing =>
    have other : ∀ other : Mark ";" × SyntaxTree.Section,
        Produces [";", "ParamSection"] (other.1.val :: other.2.tokens) := fun other =>
      (Produces.mark other.1 (by decide)).append (section_produced other.2)
    have tail : Produces ["ParamSectionTail"] (Parameters.otherTokens others) :=
      .items [";", "ParamSection"] rfl other others
    have sections : Produces ["ParamSections"] (first.tokens ++ Parameters.otherTokens others) :=
      .expand ["ParamSection", "ParamSectionTail"] ((section_produced first).append tail) (by decide)
    have body : Produces ["ParamBody"] (first.tokens ++ Parameters.otherTokens others) :=
      .expand ["ParamSections"] sections (by decide)
    refine .expand ["(", "ParamBody", ")"] ?_ (by decide)
    have whole := (Produces.mark opening (by decide)).append <| body.append <|
      Produces.mark closing (by decide)
    rw [List.append_assoc] at whole
    exact whole

theorem heading_produced (h : Heading) {xs : List Token} (tail : Produces ["DeclarationTail"] xs) :
    Produces ["Declaration"] (h.tokens ++ xs) := by
  obtain ⟨keyword, name, list, returned, returns, semicolon⟩ := h
  cases returned with
  | none =>
    have word : keyword.val.isKeyword "procedure" = true := by
      rcases Bool.or_eq_true_iff.1 keyword.property with word | word
      · exact word
      · exact nomatch returns.symm.trans word
    refine .expand ["ProcedureDecl"] (.expand
      ["procedure", "ident", "ParamListOpt", ";", "DeclarationTail"] ?_ (by decide)) (by decide)
    have whole := (Produces.keyword ⟨keyword.val, word⟩ (by decide)).append <|
      (Produces.identifier name).append <| (parameters_produced list).append <|
      (Produces.mark semicolon (by decide)).append tail
    simpa [Heading.tokens, Heading.tail, Heading.returnedTokens] using whole
  | some r =>
    obtain ⟨colon, type⟩ := r
    refine .expand ["FunctionDecl"] (.expand
      ["function", "ident", "ParamListOpt", ":", "Type", ";", "DeclarationTail"] ?_ (by decide))
      (by decide)
    have whole := (Produces.keyword ⟨keyword.val, returns⟩ (by decide)).append <|
      (Produces.identifier name).append <| (parameters_produced list).append <|
      (Produces.mark colon (by decide)).append <| (type_produced type).append <|
      (Produces.mark semicolon (by decide)).append tail
    simpa [Heading.tokens, Heading.tail, Heading.returnedTokens] using whole

theorem block_produced (b : Block) : Produces ["DeclarationList"] b.tokens := by
  have next : ∀ {xs ys}, Produces ["Declaration"] xs → Produces ["DeclarationList"] ys →
      Produces ["DeclarationList"] (xs ++ ys) := fun hx hy =>
    .expand ["Declaration", "DeclarationList"] (hx.append hy) (by decide)
  induction b with
  | empty => exact .expand [] .nil (by decide)
  | var list rest ih => exact next (.expand _ (variables_produced list) (by decide)) ih
  | forward heading word semicolon rest ih =>
    have tail : Produces ["DeclarationTail"] [word.val, semicolon.val] := by
      refine .expand ["forward", ";"] ?_ (by decide)
      exact (Produces.keyword word (by decide)).append (.mark semicolon (by decide))
    have whole := next (heading_produced heading tail) ih
    rw [List.append_assoc] at whole
    exact whole
  | defined heading opening inner closing semicolon rest ihInner ih =>
    have last : Produces ["EndOpt"] (semicolon.map Subtype.val).toList := by
      cases semicolon with
      | none => exact .expand [] .nil (by decide)
      | some semicolon => exact .expand [";"] (.mark semicolon (by decide)) (by decide)
    have body : Produces ["Body"] (opening.val :: (inner.tokens ++
        (closing.val :: (semicolon.map Subtype.val).toList))) := by
      refine .expand ["begin", "DeclarationList", "end", "EndOpt"] ?_ (by decide)
      exact (Produces.keyword opening (by decide)).append <| ihInner.append <|
        (Produces.keyword closing (by decide)).append last
    have whole := next (heading_produced heading (.expand ["Body"] body (by decide))) ih
    rw [List.append_assoc] at whole
    exact whole

theorem isSentence_block (b : Block) : Grammar.declarations.IsSentence (terminals b.tokens) :=
  isSentence_iff.2 (Produces.expand ["DeclarationList"] (block_produced b) (by decide))

/-- The sentences of the grammar are the texts of trees. -/
theorem isSentence_iff_block {tokens : List Token} (spelled : ∀ t ∈ tokens, t.kind.Spells t.text) :
    Grammar.declarations.IsSentence (terminals tokens) ↔ ∃ b : Block, b.tokens = tokens := by
  constructor
  · intro h
    have start : Matches ["Program"] tokens := ⟨spelled, isSentence_iff.1 h⟩
    obtain ⟨rhs, mem, h⟩ := start.expand (by decide)
    obtain rfl := List.mem_singleton.1 mem
    obtain ⟨b, rest, rfl, hrest⟩ := block_recovers _ _ h
    exact ⟨b, by rw [hrest.nil, List.append_nil]⟩
  · rintro ⟨b, rfl⟩
    exact isSentence_block b

theorem exists_token {symbol : Name} (h : symbol ∈ Grammar.declarations.terminals) :
    ∃ t : Token, t.kind.Spells t.text ∧ t.terminal = symbol := by
  obtain ⟨spelling, listed, rfl⟩ := List.mem_map.1 h
  rw [terminals_eq] at listed
  simp only [List.mem_append, List.mem_cons, List.not_mem_nil, or_false] at listed
  rcases listed with word | ((rfl | rfl) | mark) | rfl
  · exact ⟨⟨.keyword, spelling, ⟨1, 1⟩, 0⟩, word, rfl⟩
  · exact ⟨⟨.identifier, "a", ⟨1, 1⟩, 0⟩, ⟨'a', [], by decide, by decide, List.forall_mem_nil _, by decide⟩,
      rfl⟩
  · exact ⟨⟨.number, "0", ⟨1, 1⟩, 0⟩, ⟨'0', [], by decide, List.forall_mem_singleton.2 rfl⟩, rfl⟩
  · obtain ⟨c, hc, e⟩ := List.mem_map.1 mark
    exact ⟨⟨.punctuation, spelling, ⟨1, 1⟩, 0⟩, ⟨c, hc, e.symm⟩, rfl⟩
  · exact ⟨⟨.dots, "..", ⟨1, 1⟩, 0⟩, rfl, rfl⟩

theorem exists_tokens {word : List Name}
    (h : ∀ symbol ∈ word, symbol ∈ Grammar.declarations.terminals) :
    ∃ tokens : List Token, (∀ t ∈ tokens, t.kind.Spells t.text) ∧ terminals tokens = word := by
  induction word with
  | nil => exact ⟨[], by simp, rfl⟩
  | cons symbol word ih =>
    obtain ⟨first, others⟩ := List.forall_mem_cons.1 h
    obtain ⟨t, spelled, rfl⟩ := exists_token first
    obtain ⟨ts, all, rfl⟩ := ih others
    exact ⟨t :: ts, List.forall_mem_cons.2 ⟨spelled, all⟩, rfl⟩

/-- A viable prefix is the beginning of the text of a tree. -/
theorem exists_block_of_isViable {tokens : List Token}
    (spelled : ∀ t ∈ tokens, t.kind.Spells t.text)
    (viable : Grammar.declarations.IsViable (terminals tokens)) :
    ∃ (b : Block) (more : List Token), b.tokens = tokens ++ more := by
  obtain ⟨rest, sentence⟩ := viable
  have drawn : ∀ symbol ∈ rest, symbol ∈ Grammar.declarations.terminals := fun symbol mem =>
    sentence.2 symbol (List.mem_append_right _ mem)
  obtain ⟨more, all, rfl⟩ := exists_tokens drawn
  rw [← List.map_append] at sentence
  obtain ⟨b, e⟩ := (isSentence_iff_block (List.forall_mem_append.2 ⟨spelled, all⟩)).1 sentence
  exact ⟨b, more, e⟩

theorem isViable_of_block {b : Block} {xs more : List Token} (e : b.tokens = xs ++ more) :
    Grammar.declarations.IsViable (terminals xs) := by
  have sentence := isSentence_block b
  rw [e, terminals_append] at sentence
  exact ⟨Token.terminals more, sentence⟩

end DeclarationChecker.Declaration
