import Mathlib.Data.List.TakeWhile
import Terakoya.Proofs.Decoding
import Terakoya.Proofs.Passage
import Terakoya.Settings.Interpolation

/-! Variables in a text. In exactly one way a text falls apart into variables, each of them the first that begins
behind the one before, and what stands between them. Values take the place of the variables, all else is copied, and
neither is looked at again. -/
namespace Terakoya.Interpolation

open Text (encode decode)

/-! Variables as they are written -/

structure Mention where
  name : Text
  fallback : Option Text

namespace Mention

def written (m : Mention) : Text :=
  .char '$' :: .char '{' :: (m.name ++ match m.fallback with
    | none => [.char '}']
    | some d => .char ':' :: .char '-' :: (d ++ [.char '}']))

def default (m : Mention) : Text := m.fallback.getD []

structure Proper (m : Mention) : Prop where
  named : m.name ≠ []
  name : .char '}' ∉ m.name ∧ .char ':' ∉ m.name
  fallback : .char '}' ∉ m.default

def value (lookup : Text → Text) (m : Mention) : Text :=
  if lookup m.name = [] ∧ m.default ≠ [] then m.default else lookup m.name

end Mention

def Begins (t : Text) : Prop := ∃ (m : Mention) (rest : Text), m.Proper ∧ t = m.written ++ rest

variable {lookup : Text → Text} {m m' : Mention} {t rest rest' : Text}

theorem takeUpTo {p : Glyph → Bool} {s : Text} {g : Glyph} (inside : ∀ h ∈ s, p h) (stop : p g = false) (t : Text) :
    (s ++ g :: t).takeWhile p = s := by
  rw [List.takeWhile_append_of_pos inside,List.takeWhile_cons_of_neg (by simp [stop]),List.append_nil]

theorem dropTaken (p : Glyph → Bool) (t : Text) : t = t.takeWhile p ++ t.drop (t.takeWhile p).length :=
  (List.prefix_iff_eq_append.mp (List.takeWhile_prefix p)).symm

theorem isOther {g : Glyph} {c : Char} : (!g.is c) = true ↔ g ≠ .char c := by
  rw [Bool.not_eq_true',← Bool.not_eq_true]
  exact not_congr ⟨Glyph.eqOfIs,fun same => same ▸ beq_self_eq_true c⟩

theorem inNameIff {g : Glyph} : inName g ↔ g ≠ .char '}' ∧ g ≠ .char ':' := by
  rw [inName,Bool.and_eq_true,isOther,isOther]

theorem inFallbackIff {g : Glyph} : inFallback g ↔ g ≠ .char '}' := isOther

theorem occurrenceWritten (proper : m.Proper) (rest : Text) :
    occurrence? (m.written ++ rest) = some (⟨m.name,m.default⟩,m.written.length) := by
  obtain ⟨name,fallback⟩ := m
  obtain ⟨named,⟨brace,colon⟩,closed⟩ := proper
  have letters : ∀ g ∈ name, inName g := fun g inside =>
    inNameIff.mpr ⟨fun same => brace (same ▸ inside),fun same => colon (same ▸ inside)⟩
  have some : name.isEmpty = false := by simpa using named
  cases fallback with
  | none =>
    have name' := takeUpTo letters (by decide : inName (.char '}') = false) rest
    simp [Mention.written,Mention.default,occurrence?,name',some]
  | some d =>
    have inside : ∀ g ∈ d, inFallback g := fun g inside => inFallbackIff.mpr fun same => closed (same ▸ inside)
    have name' := takeUpTo letters (by decide : inName (.char ':') = false) (.char '-' :: (d ++ .char '}' :: rest))
    have fallback' := takeUpTo inside (by decide : inFallback (.char '}') = false) rest
    simp [Mention.written,Mention.default,occurrence?,name',fallback',some]
    omega

theorem beginsIff : Begins t ↔ (occurrence? t).isSome := by
  constructor
  · rintro ⟨m,rest,proper,rfl⟩
    rw [occurrenceWritten proper]
    rfl
  intro found
  unfold occurrence? at found
  split at found
  · rename_i rest
    dsimp only at found
    have name := dropTaken inName rest
    have letters : ∀ g ∈ rest.takeWhile inName, inName g := fun g inside => List.mem_takeWhile_imp inside
    generalize rest.takeWhile inName = n at *
    have proper : .char '}' ∉ n ∧ .char ':' ∉ n :=
      ⟨fun inside => (inNameIff.mp (letters _ inside)).1 rfl,fun inside => (inNameIff.mp (letters _ inside)).2 rfl⟩
    split at found
    · contradiction
    rename_i filled
    have named : n ≠ [] := by simpa using filled
    split at found
    · rename_i behind closed
      refine ⟨⟨n,none⟩,behind,⟨named,proper,List.not_mem_nil⟩,?_⟩
      simp [Mention.written,← closed,← name]
    · rename_i more guarded
      have fallback := dropTaken inFallback more
      have inside : ∀ g ∈ more.takeWhile inFallback, inFallback g := fun g inside => List.mem_takeWhile_imp inside
      generalize more.takeWhile inFallback = d at *
      split at found
      · rename_i behind closed
        refine ⟨⟨n,some d⟩,behind,⟨named,proper,fun brace => inFallbackIff.mp (inside _ brace) rfl⟩,?_⟩
        simp [Mention.written,← closed,← fallback,← guarded,← name]
      · contradiction
    · contradiction
  · contradiction

theorem writtenUnique (proper : m.Proper) (proper' : m'.Proper) (same : m.written ++ rest = m'.written ++ rest') :
    m = m' ∧ rest = rest' := by
  have found := occurrenceWritten proper rest
  rw [same,occurrenceWritten proper',Option.some.injEq,Prod.mk.injEq,Variable.mk.injEq] at found
  obtain ⟨⟨name,fallback⟩,length⟩ := found
  obtain ⟨n,d⟩ := m
  obtain ⟨n',d'⟩ := m'
  refine ⟨?_,List.append_inj_right same length.symm⟩
  cases d <;> cases d' <;> simp_all [Mention.written,Mention.default]

/-! Texts that fall apart into variables and what stands between them -/

inductive Divided : Text → List (Text × Mention) → Text → Prop where
  | ended {tail} (none : ∀ u v, tail = u ++ v → ¬ Begins v) : Divided tail [] tail
  | found {gap m rest parts tail} (proper : Mention.Proper m)
      (first : ∀ u v, gap = u ++ v → v ≠ [] → ¬ Begins (v ++ (m.written ++ rest)))
      (later : Divided rest parts tail) : Divided (gap ++ (m.written ++ rest)) ((gap,m) :: parts) tail

theorem dividedSome (t : Text) : ∃ parts tail, Divided t parts tail := by
  induction long : t.length using Nat.strongRecOn generalizing t with
  | ind n ih =>
    subst long
    by_cases begins : Begins t
    · obtain ⟨m,rest,proper,rfl⟩ := begins
      obtain ⟨parts,tail,later⟩ := ih rest.length (by simp only [Mention.written,List.cons_append,List.length_cons,List.length_append]; omega) rest rfl
      have divided : Divided ([] ++ (m.written ++ rest)) (([],m) :: parts) tail :=
        .found proper (fun u v none some => absurd (List.append_eq_nil_iff.mp none.symm).2 some) later
      exact ⟨_,_,divided⟩
    · cases t with
      | nil => exact ⟨[],[],.ended fun u v none => (List.append_eq_nil_iff.mp none.symm).2 ▸ begins⟩
      | cons g t =>
        obtain ⟨parts,tail,later⟩ := ih t.length (Nat.lt_succ_self _) t rfl
        cases later with
        | ended none =>
          refine ⟨[],g :: t,.ended fun u v split => ?_⟩
          rcases List.cons_eq_append_iff.mp split with ⟨_,rfl⟩ | ⟨u',_,split⟩
          · exact begins
          · exact none u' v split
        | @found gap m rest parts _ proper first later =>
          have divided : Divided ((g :: gap) ++ (m.written ++ rest)) ((g :: gap,m) :: parts) tail := by
            refine .found proper (fun u v split some => ?_) later
            rcases List.cons_eq_append_iff.mp split with ⟨_,rfl⟩ | ⟨u',_,split⟩
            · exact begins
            · exact first u' v split some
          exact ⟨_,_,divided⟩

theorem dividedUnique {parts parts' tail tail'} (one : Divided t parts tail) (other : Divided t parts' tail') :
    parts = parts' ∧ tail = tail' := by
  have alike {gap gap' w w' : Text} (whole : gap ++ w = gap' ++ w') (begins : Begins w)
      (first : ∀ u v, gap' = u ++ v → v ≠ [] → ¬ Begins (v ++ w')) : gap'.length ≤ gap.length := by
    rcases List.append_eq_append_iff.mp whole with ⟨a,rfl,rfl⟩ | ⟨a,rfl,_⟩
    · by_cases none : a = []
      · simp [none]
      · exact absurd begins (first gap a rfl none)
    · simp
  induction one generalizing parts' tail' with
  | @ended tail none =>
    cases other with
    | ended => exact ⟨rfl,rfl⟩
    | @found gap m rest _ _ proper => exact absurd ⟨m,rest,proper,rfl⟩ (none gap _ rfl)
  | @found gap m rest parts tail proper first later ih =>
    have begins : Begins (m.written ++ rest) := ⟨m,rest,proper,rfl⟩
    generalize whole : gap ++ (m.written ++ rest) = t at other
    cases other with
    | ended none => exact absurd begins (none gap _ whole.symm)
    | @found gap' m' rest' _ _ proper' first' later' =>
      have long := alike whole begins first'
      have long' := alike whole.symm ⟨m',rest',proper',rfl⟩ first
      obtain ⟨rfl,same⟩ := List.append_inj whole (Nat.le_antisymm long' long)
      obtain ⟨rfl,rfl⟩ := writtenUnique proper proper' same
      obtain ⟨rfl,rfl⟩ := ih later'
      exact ⟨rfl,rfl⟩

/-! Replacing variables -/

theorem afterDropped (skip : Nat) (t : Text) : after lookup skip t = after lookup 0 (t.drop skip) := by
  induction t generalizing skip with
  | nil => cases skip <;> rfl
  | cons g t ih =>
    cases skip with
    | zero => rfl
    | succ skip => exact ih skip

theorem afterMention (proper : m.Proper) (rest : Text) :
    after lookup 0 (m.written ++ rest) = m.value lookup ++ after lookup 0 rest := by
  have found := occurrenceWritten proper rest
  obtain ⟨u,cut⟩ : ∃ u, m.written = .char '$' :: u := ⟨_,rfl⟩
  have value : Variable.value lookup ⟨m.name,m.default⟩ = m.value lookup := by
    simp only [Variable.value,Mention.value,List.isEmpty_iff]
    by_cases unset : lookup m.name = [] <;> by_cases none : m.default = [] <;> simp [unset,none]
  rw [cut,List.cons_append] at found ⊢
  rw [after,found]
  show Variable.value lookup _ ++ after lookup u.length (u ++ rest) = _
  rw [value,afterDropped,List.drop_left]

theorem afterGap {gap w : Text} (none : ∀ u v, gap = u ++ v → v ≠ [] → ¬ Begins (v ++ w)) :
    after lookup 0 (gap ++ w) = gap ++ after lookup 0 w := by
  induction gap with
  | nil => rfl
  | cons g gap ih =>
    have nothing : occurrence? (g :: (gap ++ w)) = .none := by
      simpa [beginsIff] using none [] (g :: gap) rfl (List.cons_ne_nil g gap)
    rw [List.cons_append,after,nothing,List.cons_append]
    exact congrArg (g :: ·) (ih fun u v split => none (g :: u) v (congrArg (g :: ·) split))

theorem afterDivided {parts tail} (divided : Divided t parts tail) :
    after lookup 0 t = (parts.flatMap fun part => part.1 ++ part.2.value lookup) ++ tail := by
  induction divided with
  | @ended tail none =>
    have copied : after lookup 0 (tail ++ []) = tail ++ after lookup 0 [] :=
      afterGap fun u v split _ => (List.append_nil v).symm ▸ none u v split
    simpa [after] using copied
  | found proper first later ih => rw [afterGap first,afterMention proper,ih,List.flatMap_cons,List.append_assoc,List.append_assoc]

theorem variablesAreReplacedInOnePass (lookup : Text → Text) (t : Text) :
    ∃ parts tail, Divided t parts tail ∧ (∀ parts' tail', Divided t parts' tail' → parts' = parts ∧ tail' = tail) ∧
      encode (expand lookup t) = encode ((parts.flatMap fun part => part.1 ++ part.2.value lookup) ++ tail) := by
  obtain ⟨parts,tail,divided⟩ := dividedSome t
  refine ⟨parts,tail,divided,fun parts' tail' other => dividedUnique other divided,?_⟩
  rw [expand,Text.encodeDecoded,afterDivided divided]

end Terakoya.Interpolation
