import Omapkg.Server.PacmanDesc
/-!
# The grammar of license expressions

What `parseDeclaredLicense` of `src/src/lib/server/policy.ts` accepts: identifiers,
`WITH`, `AND` and `OR` from the tightest to the loosest, and parentheses. The parser
gives no tree back, only the text it was given without the spaces around it.
-/

namespace Omapkg.Server.Desc

open Utf

/-! ## Words -/

def IsWord : JsString → Prop
  | [] => False
  | u :: us => isAlnumUnit u = true ∧ ∀ v ∈ us, isLicenseUnit v = true

def IsParen (u : UInt16) : Prop := u = 0x28 ∨ u = 0x29

instance (u : UInt16) : Decidable (IsParen u) := inferInstanceAs (Decidable (_ ∨ _))

/-- The words and parentheses of a text. A word goes as far as it can. -/
inductive Lexes : JsString → List JsString → Prop
  | nil : Lexes [] []
  | space {u : UInt16} {us : JsString} {tokens : List JsString} : isJsSpace u = true → Lexes us tokens →
    Lexes (u :: us) tokens
  | paren {u : UInt16} {us : JsString} {tokens : List JsString} : IsParen u → Lexes us tokens →
    Lexes (u :: us) ([u] :: tokens)
  | word {w us : JsString} {tokens : List JsString} : IsWord w → (∀ u ∈ us.head?, isLicenseUnit u = false) →
    Lexes us tokens → Lexes (w ++ us) (w :: tokens)

/-! ## Expressions -/

/-- An identifier that is no operator. -/
def IsIdentifier (token : JsString) : Prop := isLicenseIdentifier token = true ∧ isOperatorName token = false

/-- What binds tighter than what. -/
inductive Level where
  | primary | exception | conjunction | expression

inductive Derives : Level → List JsString → Prop
  | identifier {name : JsString} : IsIdentifier name → Derives .primary [name]
  | group {ts : List JsString} : Derives .expression ts → Derives .primary ([0x28] :: ts ++ [[0x29]])
  | plain {ts : List JsString} : Derives .primary ts → Derives .exception ts
  | exception {ts : List JsString} {name : JsString} : Derives .primary ts → IsIdentifier name →
    Derives .exception (ts ++ [units "WITH", name])
  | conjunct {ts : List JsString} : Derives .exception ts → Derives .conjunction ts
  | and {ts us : List JsString} : Derives .exception ts → Derives .conjunction us →
    Derives .conjunction (ts ++ units "AND" :: us)
  | disjunct {ts : List JsString} : Derives .conjunction ts → Derives .expression ts
  | or {ts us : List JsString} : Derives .conjunction ts → Derives .expression us →
    Derives .expression (ts ++ units "OR" :: us)

/-- The text is a license expression. -/
def IsExpression (text : JsString) : Prop := ∃ tokens, Lexes text tokens ∧ Derives .expression tokens

/-! ## Reading words -/

theorem not_space_of_alnum {u : UInt16} (h : isAlnumUnit u = true) : isJsSpace u = false := by
  by_contra hspace
  have hnot := jsSpace_all (p := fun v => !isAlnumUnit v) (by decide) ((Bool.not_eq_false _).mp hspace)
  simp [h] at hnot

theorem not_paren_of_alnum {u : UInt16} (h : isAlnumUnit u = true) : ¬IsParen u := by
  rintro (rfl | rfl) <;> exact absurd h (by decide)

theorem not_space_of_paren {u : UInt16} (h : IsParen u) : isJsSpace u = false := by
  rcases h with rfl | rfl <;> decide

theorem lexes_of_licenseTokens {fuel : Nat} {us : JsString} {tokens : List JsString}
    (h : licenseTokens fuel us = some tokens) : Lexes us tokens := by
  induction fuel generalizing us tokens with
  | zero =>
    cases us with
    | nil =>
      cases h
      exact .nil
    | cons u us => cases h
  | succ fuel ih =>
    cases us with
    | nil =>
      cases h
      exact .nil
    | cons u us =>
      rw [licenseTokens] at h
      split at h
      · next hspace => exact .space hspace (ih h)
      · split at h
        · next hparen =>
          obtain ⟨rest, hrest, rfl⟩ := Option.map_eq_some_iff.mp h
          exact .paren hparen (ih hrest)
        · split at h
          · next halnum =>
            obtain ⟨rest, hrest, rfl⟩ := Option.map_eq_some_iff.mp h
            have hword : IsWord (u :: us.takeWhile isLicenseUnit) := ⟨halnum, fun v hv => List.mem_takeWhile_imp hv⟩
            have hend : ∀ v ∈ (us.dropWhile isLicenseUnit).head?, isLicenseUnit v = false := by
              intro v hv
              have := List.head?_dropWhile_not isLicenseUnit us
              rw [Option.mem_def.mp hv] at this
              simpa using this
            have hlexes := Lexes.word hword hend (ih hrest)
            rwa [List.cons_append, List.takeWhile_append_dropWhile] at hlexes
          · cases h

/-- The longest word is the one that ends where no unit of a word follows. -/
theorem span_word {us vs : JsString} (hus : ∀ v ∈ us, isLicenseUnit v = true)
    (hend : ∀ u ∈ vs.head?, isLicenseUnit u = false) :
    (us ++ vs).takeWhile isLicenseUnit = us ∧ (us ++ vs).dropWhile isLicenseUnit = vs := by
  have htake : vs.takeWhile isLicenseUnit = [] := by
    cases vs with
    | nil => rfl
    | cons v vs => exact List.takeWhile_cons_of_neg (by simp [hend v (by simp)])
  have hdrop : vs.dropWhile isLicenseUnit = vs := by
    cases vs with
    | nil => rfl
    | cons v vs => exact List.dropWhile_cons_of_neg (by simp [hend v (by simp)])
  constructor
  · rw [List.takeWhile_append_of_pos hus, htake, List.append_nil]
  · rw [List.dropWhile_append_of_pos hus, hdrop]

theorem licenseTokens_of_lexes {us : JsString} {tokens : List JsString} (h : Lexes us tokens) :
    ∀ fuel, us.length ≤ fuel → licenseTokens fuel us = some tokens := by
  induction h with
  | nil =>
    intro fuel _
    cases fuel <;> rfl
  | @space u us tokens hspace hrest ih =>
    intro fuel hfuel
    cases fuel with
    | zero => cases hfuel
    | succ fuel =>
      rw [licenseTokens, if_pos hspace]
      exact ih fuel (Nat.le_of_succ_le_succ hfuel)
  | @paren u us tokens hparen hrest ih =>
    intro fuel hfuel
    cases fuel with
    | zero => cases hfuel
    | succ fuel =>
      rw [licenseTokens, if_neg (by simp [not_space_of_paren hparen]), ih fuel (Nat.le_of_succ_le_succ hfuel)]
      exact if_pos hparen
  | @word w us tokens hword hend hrest ih =>
    intro fuel hfuel
    rcases w with _ | ⟨v, w⟩
    · exact hword.elim
    · obtain ⟨halnum, hunits⟩ := hword
      obtain ⟨htake, hdrop⟩ := span_word hunits hend
      rw [List.cons_append, List.length_cons, List.length_append] at hfuel
      cases fuel with
      | zero => omega
      | succ fuel =>
        rw [List.cons_append, licenseTokens, if_neg (by simp [not_space_of_alnum halnum]), htake, hdrop,
          ih fuel (by omega), if_pos halnum]
        exact if_neg (not_paren_of_alnum halnum)

/-! ## Reading expressions -/

section
variable {ts us tokens rest : List JsString} {f : List JsString → Option (List JsString)}

theorem takeIdentifier_iff : takeIdentifier tokens = some rest ↔ ∃ name, IsIdentifier name ∧ tokens = name :: rest := by
  cases tokens with
  | nil => simp [takeIdentifier]
  | cons token tokens =>
    unfold takeIdentifier IsIdentifier
    constructor
    · intro h
      change (if isLicenseIdentifier token = false ∨ isOperatorName token = true then none else some tokens) = _ at h
      by_cases hname : isLicenseIdentifier token = false ∨ isOperatorName token = true
      · rw [if_pos hname] at h
        cases h
      · rw [if_neg hname] at h
        cases h
        rw [not_or, Bool.not_eq_false, Bool.not_eq_true] at hname
        exact ⟨token, hname, rfl⟩
    · rintro ⟨name, hname, heq⟩
      cases heq
      simp [hname.1, hname.2]

/-- A parser of one level gives what is left of the tokens after those it derives. -/
def Consumes (level : Level) (f : List JsString → Option (List JsString)) : Prop :=
  ∀ tokens rest, f tokens = some rest → ∃ ts, Derives level ts ∧ tokens = ts ++ rest

theorem primary_sound (hf : Consumes .expression f) : Consumes .primary (primary f) := by
  intro tokens rest h
  cases tokens with
  | nil => cases h
  | cons token tokens =>
    rw [primary] at h
    split at h
    · next hopen =>
      split at h
      · next close after hinner =>
        split at h
        · next hclose =>
          obtain ⟨ts, hts, rfl⟩ := hf _ _ hinner
          cases h
          exact ⟨_, .group hts, by simp [hopen, hclose]⟩
        · cases h
      · cases h
    · obtain ⟨name, hname, heq⟩ := takeIdentifier_iff.mp h
      exact ⟨[name], .identifier hname, heq⟩

theorem withExpression_sound (hf : Consumes .expression f) : Consumes .exception (withExpression f) := by
  intro tokens rest h
  obtain ⟨after, hprimary, hafter⟩ := Option.bind_eq_some_iff.mp h
  obtain ⟨ts, hts, rfl⟩ := primary_sound hf _ _ hprimary
  cases after with
  | nil =>
    cases hafter
    exact ⟨ts, .plain hts, rfl⟩
  | cons token after =>
    simp only at hafter
    split at hafter
    · next hwith =>
      obtain ⟨name, hname, rfl⟩ := takeIdentifier_iff.mp hafter
      exact ⟨_, .exception hts hname, by simp [hwith]⟩
    · cases hafter
      exact ⟨ts, .plain hts, rfl⟩

/-- Operands between operators, where one operand is a phrase and a phrase after an operator is one too. -/
theorem operands_sound {operand level : Level} {operator : JsString} (hf : Consumes operand f)
    (hone : ∀ {ts}, Derives operand ts → Derives level ts)
    (hmore : ∀ {ts us}, Derives operand ts → Derives level us → Derives level (ts ++ operator :: us)) (fuel : Nat) :
    Consumes level (operands operator f fuel) := by
  induction fuel with
  | zero =>
    intro tokens rest h
    cases h
  | succ fuel ih =>
    intro tokens rest h
    obtain ⟨after, hoperand, hafter⟩ := Option.bind_eq_some_iff.mp h
    obtain ⟨ts, hts, rfl⟩ := hf _ _ hoperand
    cases after with
    | nil =>
      cases hafter
      exact ⟨ts, hone hts, rfl⟩
    | cons token after =>
      simp only at hafter
      split at hafter
      · next hoperator =>
        obtain ⟨us, hus, rfl⟩ := ih _ _ hafter
        exact ⟨_, hmore hts hus, by simp [hoperator]⟩
      · cases hafter
        exact ⟨ts, hone hts, rfl⟩

theorem expression_sound (fuel : Nat) : Consumes .expression (expression fuel) := by
  induction fuel with
  | zero =>
    intro tokens rest h
    cases h
  | succ fuel ih =>
    exact operands_sound (operands_sound (withExpression_sound ih) .conjunct .and (fuel + 1)) .disjunct .or (fuel + 1)

/-- No operator that the level could go on with comes next. -/
def Ends : Level → List JsString → Prop
  | .primary, _ => True
  | .exception, rest => rest.head? ≠ some (units "WITH")
  | .conjunction, rest => rest.head? ≠ some (units "WITH") ∧ rest.head? ≠ some (units "AND")
  | .expression, rest =>
    rest.head? ≠ some (units "WITH") ∧ rest.head? ≠ some (units "AND") ∧ rest.head? ≠ some (units "OR")

theorem open_ne_identifier {name : JsString} (h : IsIdentifier name) : name ≠ [0x28] := by
  rintro rfl
  exact absurd h.1 (by decide)

theorem operands_one {operator : JsString} (fuel : Nat) (hf : f tokens = some rest)
    (hend : rest.head? ≠ some operator) : operands operator f (fuel + 1) tokens = some rest := by
  rw [operands, hf]
  cases rest with
  | nil => rfl
  | cons token rest =>
    change (if token = operator then operands operator f fuel rest else some (token :: rest)) = _
    rw [if_neg fun h => hend (by rw [h]; rfl)]

theorem operands_more {operator : JsString} (fuel : Nat) (hf : f tokens = some (operator :: us)) :
    operands operator f (fuel + 1) tokens = operands operator f fuel us := by
  rw [operands, hf]
  change (if operator = operator then operands operator f fuel us else _) = _
  rw [if_pos rfl]

/-- The parser of a level takes a phrase off the tokens where nothing goes on with it. -/
def Reads (fuel : Nat) (ts : List JsString) : Level → Prop
  | .primary => ∀ rest, primary (expression fuel) (ts ++ rest) = some rest
  | .exception => ∀ rest, Ends .exception rest → withExpression (expression fuel) (ts ++ rest) = some rest
  | .conjunction => ∀ rest n, Ends .conjunction rest → ts.length ≤ n →
    operands (units "AND") (withExpression (expression fuel)) (n + 1) (ts ++ rest) = some rest
  | .expression => ∀ rest n, Ends .expression rest → ts.length ≤ n →
    operands (units "OR") (operands (units "AND") (withExpression (expression fuel)) (fuel + 1)) (n + 1) (ts ++ rest) =
      some rest

theorem reads_of_derives {level : Level} (h : Derives level ts) : ∀ fuel, ts.length ≤ fuel → Reads fuel ts level := by
  induction h with
  | @identifier name hname =>
    intro fuel _ rest
    change primary (expression fuel) (name :: rest) = some rest
    rw [primary, if_neg (open_ne_identifier hname)]
    exact takeIdentifier_iff.mpr ⟨name, hname, rfl⟩
  | @group ts _ ih =>
    intro fuel hfuel rest
    rw [List.cons_append, List.length_cons, List.length_append, List.length_singleton] at hfuel
    rcases fuel with _ | fuel
    · omega
    · have hinner : expression (fuel + 1) (ts ++ [0x29] :: rest) = some ([0x29] :: rest) := by
        refine ih fuel (by omega) ([0x29] :: rest) fuel ⟨?_, ?_, ?_⟩ (by omega)
        all_goals exact fun h => absurd (Option.some.inj h) (by decide)
      rw [List.cons_append, List.cons_append, primary, if_pos rfl, List.append_assoc, List.singleton_append, hinner]
      rfl
  | @plain ts _ ih =>
    intro fuel hfuel rest hend
    rw [withExpression, ih fuel hfuel rest]
    cases rest with
    | nil => rfl
    | cons token rest => exact if_neg fun h => hend (by rw [h]; rfl)
  | @exception ts name _ hname ih =>
    intro fuel hfuel rest _
    rw [List.length_append] at hfuel
    rw [List.append_assoc, withExpression, ih fuel (by omega)]
    change (if units "WITH" = units "WITH" then takeIdentifier (name :: rest) else some (units "WITH" :: name :: rest)) = _
    rw [if_pos rfl]
    exact takeIdentifier_iff.mpr ⟨name, hname, rfl⟩
  | @conjunct ts _ ih =>
    intro fuel hfuel rest n hend _
    exact operands_one n (ih fuel hfuel rest hend.1) hend.2
  | @and ts us hts _ ihts ihus =>
    intro fuel hfuel rest n hend hn
    rw [List.length_append, List.length_cons] at hfuel hn
    rw [List.append_assoc, List.cons_append,
      operands_more n (ihts fuel (by omega) _ fun h => absurd (Option.some.inj h) (by decide))]
    rcases n with _ | n
    · omega
    · exact ihus fuel (by omega) rest n hend (by omega)
  | @disjunct ts _ ih =>
    intro fuel hfuel rest n hend _
    exact operands_one n (ih fuel hfuel rest fuel ⟨hend.1, hend.2.1⟩ hfuel) hend.2.2
  | @or ts us hts _ ihts ihus =>
    intro fuel hfuel rest n hend hn
    rw [List.length_append, List.length_cons] at hfuel hn
    have hconjunction : Ends .conjunction (units "OR" :: (us ++ rest)) :=
      ⟨fun h => absurd (Option.some.inj h) (by decide), fun h => absurd (Option.some.inj h) (by decide)⟩
    rw [List.append_assoc, List.cons_append,
      operands_more n (ihts fuel (by omega) _ fuel hconjunction (by omega))]
    rcases n with _ | n
    · omega
    · exact ihus fuel (by omega) rest n hend (by omega)

/-- All tokens are taken just if they are an expression. -/
theorem expression_iff : expression (tokens.length + 1) tokens = some [] ↔ Derives .expression tokens := by
  constructor
  · intro h
    obtain ⟨ts, hts, heq⟩ := expression_sound _ _ _ h
    rwa [heq, List.append_nil]
  · intro h
    have hread := reads_of_derives h tokens.length (Nat.le_refl _) [] tokens.length
      ⟨by simp, by simp, by simp⟩ (Nat.le_refl _)
    rwa [List.append_nil] at hread

/-! ## Every text is read to an end -/

theorem derives_ne_nil {level : Level} (h : Derives level ts) : ts ≠ [] := by
  induction h with
  | identifier | group => simp
  | plain _ ih | conjunct _ ih | disjunct _ ih => exact ih
  | exception | and | or => simp

/-- Every phrase has a token. -/
theorem Consumes.shorter {level : Level} (hf : Consumes level f) (h : f tokens = some rest) : rest.length < tokens.length := by
  obtain ⟨ts, hts, rfl⟩ := hf _ _ h
  have := List.length_pos_iff.mpr (derives_ne_nil hts)
  rw [List.length_append]
  omega

theorem operands_agree {level : Level} {operator : JsString} {g : List JsString → Option (List JsString)}
    (hf : Consumes level f) {n m : Nat} (hn : tokens.length < n) (hm : tokens.length < m)
    (hfg : ∀ us, us.length ≤ tokens.length → f us = g us) :
    operands operator f n tokens = operands operator g m tokens := by
  induction n generalizing tokens m with
  | zero => omega
  | succ n ih =>
    rcases m with _ | m
    · omega
    · rw [operands, operands, ← hfg tokens (Nat.le_refl _)]
      cases hfirst : f tokens with
      | none => rfl
      | some after =>
        cases after with
        | nil => rfl
        | cons token after =>
          have hshort := hf.shorter hfirst
          rw [List.length_cons] at hshort
          change (if token = operator then _ else _) = (if token = operator then _ else _)
          rw [@ih after m (by omega) (by omega) fun us hus => hfg us (by omega)]

theorem withExpression_agree {g : List JsString → Option (List JsString)}
    (hfg : ∀ us, us.length < tokens.length → f us = g us) : withExpression f tokens = withExpression g tokens := by
  have hprimary : primary f tokens = primary g tokens := by
    cases tokens with
    | nil => rfl
    | cons token tokens => rw [primary, primary, hfg tokens (Nat.lt_succ_self _)]
  rw [withExpression, withExpression, hprimary]

/-- Fuel for the tokens is enough: with more of it the parser does the same. -/
theorem expression_agree {n m : Nat} (hn : tokens.length < n) (hm : tokens.length < m) :
    expression n tokens = expression m tokens := by
  induction n generalizing tokens m with
  | zero => omega
  | succ n ih =>
    rcases m with _ | m
    · omega
    · refine operands_agree (operands_sound (withExpression_sound (expression_sound n)) .conjunct .and _) hn hm ?_
      intro us hus
      refine operands_agree (withExpression_sound (expression_sound n)) (by omega) (by omega) ?_
      intro vs hvs
      have hle : vs.length ≤ tokens.length := Nat.le_trans hvs hus
      exact withExpression_agree fun ws hws => ih (by omega) (by omega)

end

/-- The units of a text are enough fuel for its words. -/
theorem licenseTokens_agree {us : JsString} {n m : Nat} (hn : us.length ≤ n) (hm : us.length ≤ m) :
    licenseTokens n us = licenseTokens m us := by
  cases hleft : licenseTokens n us with
  | some tokens => exact (licenseTokens_of_lexes (lexes_of_licenseTokens hleft) m hm).symm
  | none =>
    cases hright : licenseTokens m us with
    | none => rfl
    | some tokens =>
      rw [licenseTokens_of_lexes (lexes_of_licenseTokens hright) n hn] at hleft
      cases hleft

/-! ## Licenses -/

/-- The limits of a declared license. -/
def FitsLicense (value : JsString) : Prop := value.length ≤ 256 ∧ value.any isControl = false

theorem isExpression_ne_nil {value : JsString} (h : IsExpression value) : value ≠ [] := by
  rintro rfl
  obtain ⟨tokens, hlexes, hderives⟩ := h
  have hnone : licenseTokens 0 [] = some tokens := licenseTokens_of_lexes hlexes 0 (Nat.le_refl _)
  exact derives_ne_nil hderives (Option.some.inj hnone).symm

/-- A word that is no operator is an expression. -/
theorem isExpression_word {name : JsString} (hword : IsWord name) (hname : IsIdentifier name) : IsExpression name := by
  refine ⟨[name], ?_, .disjunct (.conjunct (.plain (.identifier hname)))⟩
  have hlexes := Lexes.word hword (by simp) Lexes.nil
  rwa [List.append_nil] at hlexes

theorem tokens_iff {value : JsString} :
    (do
      let tokens ← licenseTokens value.length value
      match expression (tokens.length + 1) tokens with
      | some [] => some value
      | _ => none) = some value ↔ IsExpression value := by
  constructor
  · intro h
    obtain ⟨tokens, htokens, h⟩ := Option.bind_eq_some_iff.mp h
    refine ⟨tokens, lexes_of_licenseTokens htokens, expression_iff.mp ?_⟩
    split at h
    · assumption
    · cases h
  · rintro ⟨tokens, hlexes, hderives⟩
    rw [licenseTokens_of_lexes hlexes _ (Nat.le_refl _)]
    simp only [Option.bind_eq_bind, Option.bind_some, expression_iff.mpr hderives]

theorem parseDeclaredLicense_accepts (input value : JsString) : parseDeclaredLicense input = some value ↔
    value = trim input ∧ FitsLicense value ∧ IsExpression value := by
  unfold parseDeclaredLicense
  simp only
  split
  · next hnamed =>
    have hfits : FitsLicense (trim input) ∧ IsExpression (trim input) := by
      rcases hnamed with h | h <;> rw [h]
      · exact ⟨⟨by decide, by decide⟩,
          isExpression_word ⟨by decide, List.all_eq_true.mp (by decide)⟩ ⟨by decide, by decide⟩⟩
      · exact ⟨⟨by decide, by decide⟩,
          isExpression_word ⟨by decide, List.all_eq_true.mp (by decide)⟩ ⟨by decide, by decide⟩⟩
    constructor
    · intro h
      cases h
      exact ⟨rfl, hfits⟩
    · rintro ⟨rfl, -⟩
      rfl
  · split
    · next hbad =>
      refine ⟨fun h => (nomatch h), ?_⟩
      rintro ⟨rfl, ⟨hlength, hcontrol⟩, hexpression⟩
      rcases hbad with h | h | h
      · exact absurd h (isExpression_ne_nil hexpression)
      · omega
      · rw [hcontrol] at h
        cases h
    · next hgood =>
      rw [not_or, not_or, Nat.not_lt, Bool.not_eq_true] at hgood
      constructor
      · intro h
        have hvalue : value = trim input := by
          obtain ⟨tokens, -, h⟩ := Option.bind_eq_some_iff.mp h
          split at h
          · exact (Option.some.inj h).symm
          · cases h
        subst hvalue
        exact ⟨rfl, hgood.2, tokens_iff.mp h⟩
      · rintro ⟨rfl, -, hexpression⟩
        exact tokens_iff.mpr hexpression

/-- A declared license is accepted just if, without the spaces around it, it is a license expression of at most 256
units and no control character; what is returned is that text. The loops end on every text: no fuel is too little. -/
theorem parseDeclaredLicense_iff (input : JsString) :
    (∀ value, parseDeclaredLicense input = some value ↔ value = trim input ∧ FitsLicense value ∧ IsExpression value) ∧
      (∀ fuel, (trim input).length ≤ fuel →
        licenseTokens fuel (trim input) = licenseTokens (trim input).length (trim input)) ∧
      ∀ tokens fuel, tokens.length < fuel → expression fuel tokens = expression (tokens.length + 1) tokens :=
  ⟨parseDeclaredLicense_accepts input, fun _ hfuel => licenseTokens_agree hfuel (Nat.le_refl _),
    fun _ _ hfuel => expression_agree hfuel (Nat.lt_succ_self _)⟩

/-- An expression of more than 256 units. -/
def longLicense : JsString := units "MIT" ++ (List.replicate 43 (units " AND MIT")).flatten

/-- A long expression is refused. -/
theorem long_expression_refused :
    ¬∀ input, (parseDeclaredLicense input).isSome = true ↔ IsExpression (trim input) := by
  intro h
  have hexpression : IsExpression (trim longLicense) := by
    rw [← tokens_iff]
    decide +kernel
  have haccepted := (h longLicense).mpr hexpression
  revert haccepted
  decide +kernel

end Omapkg.Server.Desc
