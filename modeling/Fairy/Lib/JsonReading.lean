import Fairy.Lib.JsonText

/-!
How much a reading takes of its input, and how much fuel it needs.
-/

namespace Fairy.Lib.JsonText

theorem length_skip (input : List Char) : (skip input).length ≤ input.length :=
  (List.dropWhile_sublist _).length_le

theorem length_units {input : List Char} {s : List Nat} {rest : List Char}
    (h : units input = some (s, rest)) : s.length + rest.length < input.length := by
  fun_induction units input generalizing s rest with
  | case1 => cases h
  | case2 tail =>
    cases h
    simp
  | case3 a b c d tail n u tail' hu hn ih =>
    cases h
    have := ih hu
    simp only [List.length_cons]
    omega
  | case4 => cases h
  | case5 c tail hc n u tail' hu hn ih =>
    cases h
    have := ih hu
    simp only [List.length_cons]
    omega
  | case6 => cases h
  | case7 => cases h
  | case8 c tail h1 h2 h3 hc ih =>
    obtain ⟨⟨u, tail'⟩, hu, heq⟩ := Option.map_eq_some_iff.mp h
    cases heq
    have := ih hu
    simp only [List.length_cons]
    omega

theorem length_join (s : List Nat) : (join s).length ≤ s.length := by
  fun_induction join s with
  | case1 => exact le_rfl
  | case2 => exact le_rfl
  | case3 h l rest _ ih =>
    simp only [List.length_cons]
    omega
  | case4 h l rest _ ih =>
    simp only [List.length_cons] at ih ⊢
    omega

theorem length_string {input rest : List Char} {s : PyString}
    (h : string input = some (s, rest)) : s.length + rest.length < input.length := by
  obtain ⟨⟨u, rest'⟩, hu, heq⟩ := Option.map_eq_some_iff.mp h
  cases heq
  have hjoin := length_join u
  have := length_units hu
  omega

theorem length_fraction (input : List Char) : (fraction input).2.length ≤ input.length := by
  fun_cases fraction input with
  | case1 d rest =>
    have := (List.dropWhile_sublist (p := isDigit) (l := rest)).length_le
    simp only [List.length_cons]
    omega
  | case2 => exact le_rfl
  | case3 => exact le_rfl

theorem length_sign (input : List Char) : (sign input).2.length ≤ input.length := by
  fun_cases sign input with
  | case1 => exact Nat.le_succ _
  | case2 => exact Nat.le_succ _
  | case3 => exact le_rfl

theorem length_exponent (input : List Char) : (exponent input).2.length ≤ input.length := by
  fun_cases exponent input with
  | case1 e rest =>
    have := (List.dropWhile_sublist (p := isDigit) (l := (sign rest).2)).length_le
    have := length_sign rest
    simp only [List.length_cons]
    omega
  | case2 => exact le_rfl
  | case3 => exact le_rfl

/-- A value that is neither a string nor made of others. -/
def Value.Atomic : Value → Prop
  | .str _ | .arr _ | .obj _ => False
  | _ => True

theorem length_unsigned {negative : Bool} {input rest : List Char} {v : Value}
    (h : unsigned negative input = some (v, rest)) :
    rest.length < input.length ∧ v.Atomic := by
  have hdrop : (input.drop (whole input).length).length = input.length - (whole input).length :=
    List.length_drop
  have hf := length_fraction (input.drop (whole input).length)
  have he := length_exponent (fraction (input.drop (whole input).length)).2
  have hwhole : (whole input).length ≤ input.length := by
    fun_cases whole input with
    | case1 => simp
    | case2 => exact (List.takeWhile_sublist _).length_le
  simp only [unsigned] at h
  split at h
  · cases h
  · rename_i hne
    have hpos := List.length_pos_of_ne_nil hne
    split at h
    all_goals
      cases h
      exact ⟨by omega, trivial⟩

theorem length_scalar {input rest : List Char} {v : Value} (h : scalar input = some (v, rest)) :
    rest.length < input.length ∧ v.Atomic := by
  simp only [scalar] at h
  split at h
  · rename_i word v' hfind
    cases h
    have hmem := List.mem_of_find?_eq_some hfind
    have hprefix := List.find?_some hfind
    have hle : word.length ≤ input.length := (List.isPrefixOf_iff_prefix.mp hprefix).length_le
    simp only [constants, List.mem_cons, List.not_mem_nil, or_false, Prod.mk.injEq] at hmem
    have hpos : 0 < word.length := by
      obtain ⟨rfl, _⟩ | ⟨rfl, _⟩ | ⟨rfl, _⟩ | ⟨rfl, _⟩ | ⟨rfl, _⟩ | ⟨rfl, _⟩ := hmem <;> decide
    refine ⟨by rw [List.length_drop]; omega, ?_⟩
    obtain ⟨_, rfl⟩ | ⟨_, rfl⟩ | ⟨_, rfl⟩ | ⟨_, rfl⟩ | ⟨_, rfl⟩ | ⟨_, rfl⟩ := hmem <;> trivial
  · simp only [number] at h
    split at h
    · obtain ⟨hlt, hne⟩ := length_unsigned h
      exact ⟨Nat.lt_succ_of_lt hlt, hne⟩
    · exact length_unsigned h

/-- No string of the list is as long as the input it was read from. -/
def StringsBelow (n : Nat) (fs : List (PyString × Value)) : Prop :=
  ∀ f ∈ fs, ∀ s, f.2 = .str s → s.length < n

theorem StringsBelow.put {n : Nat} {fs : List (PyString × Value)} {key : PyString} {v : Value}
    (h : StringsBelow n fs) (hv : ∀ s, v = .str s → s.length < n) :
    StringsBelow n (put fs key v) := by
  intro f hf
  simp only [JsonText.put] at hf
  split at hf
  · obtain ⟨g, hg, rfl⟩ := List.mem_map.mp hf
    split
    · exact hv
    · exact h g hg
  · obtain hf | hf := List.mem_append.mp hf
    · exact h f hf
    · rw [List.mem_singleton.mp hf]
      exact hv

/-- What readings with this fuel take: at least one character, and no string is
as long as the input. -/
structure Takes (fuel : Nat) : Prop where
  value : ∀ {input v rest}, value fuel input = some (v, rest) →
    rest.length < input.length ∧ (∀ s, v = .str s → s.length < input.length) ∧
      ∀ fs, v = .obj fs → StringsBelow input.length fs
  items : ∀ {input vs rest}, items fuel input = some (vs, rest) → rest.length < input.length
  fields : ∀ {read input fs rest}, fields fuel read input = some (fs, rest) →
    rest.length < input.length ∧
      ∀ n, input.length ≤ n → StringsBelow n read → StringsBelow n fs

theorem Takes.value_succ {fuel : Nat} (ih : Takes fuel) {input rest : List Char} {v : Value}
    (h : JsonText.value (fuel + 1) input = some (v, rest)) :
    rest.length < input.length ∧ (∀ s, v = .str s → s.length < input.length) ∧
      ∀ fs, v = .obj fs → StringsBelow input.length fs := by
  simp only [JsonText.value] at h
  split at h
  · obtain ⟨⟨s, rest'⟩, hs, heq⟩ := Option.map_eq_some_iff.mp h
    cases heq
    have hlt := length_string hs
    simp only [List.length_cons]
    refine ⟨by omega, fun t ht => ?_, fun _ hfs => (by cases hfs)⟩
    cases ht
    omega
  · rename_i tail
    have hskip := length_skip tail
    split at h
    · rename_i tail' heq
      cases h
      rw [heq] at hskip
      simp only [List.length_cons] at hskip ⊢
      refine ⟨by omega, fun _ hs => (by cases hs), fun fs hfs => ?_⟩
      cases hfs
      exact fun _ hf => absurd hf List.not_mem_nil
    · obtain ⟨⟨fs, rest'⟩, hfs, heq⟩ := Option.map_eq_some_iff.mp h
      cases heq
      obtain ⟨hlt, hbelow⟩ := ih.fields hfs
      simp only [List.length_cons]
      refine ⟨by omega, fun _ hs => (by cases hs), fun fs' hfs' => ?_⟩
      cases hfs'
      exact hbelow _ (by omega) fun _ hf => absurd hf List.not_mem_nil
  · rename_i tail
    have hskip := length_skip tail
    split at h
    · rename_i tail' heq
      cases h
      rw [heq] at hskip
      simp only [List.length_cons] at hskip ⊢
      exact ⟨by omega, fun _ hs => (by cases hs), fun _ hfs => (by cases hfs)⟩
    · obtain ⟨⟨vs, rest'⟩, hvs, heq⟩ := Option.map_eq_some_iff.mp h
      cases heq
      have hlt := ih.items hvs
      simp only [List.length_cons]
      exact ⟨by omega, fun _ hs => (by cases hs), fun _ hfs => (by cases hfs)⟩
  · obtain ⟨hlt, hatomic⟩ := length_scalar h
    refine ⟨hlt, fun s hs => ?_, fun fs hfs => ?_⟩
    · rw [hs] at hatomic
      exact hatomic.elim
    · rw [hfs] at hatomic
      exact hatomic.elim

theorem Takes.items_succ {fuel : Nat} (ih : Takes fuel) {input rest : List Char}
    {vs : List Value} (h : JsonText.items (fuel + 1) input = some (vs, rest)) :
    rest.length < input.length := by
  simp only [JsonText.items] at h
  split at h
  · cases h
  · rename_i v tail hv
    have hlt := (ih.value hv).1
    have hskip := length_skip tail
    split at h
    · rename_i tail' heq
      cases h
      rw [heq, List.length_cons] at hskip
      omega
    · rename_i tail' heq
      obtain ⟨⟨vs', rest'⟩, hvs, heq'⟩ := Option.map_eq_some_iff.mp h
      cases heq'
      have hitems := ih.items hvs
      have hskip' := length_skip tail'
      rw [heq, List.length_cons] at hskip
      change rest'.length < input.length
      omega
    · cases h

theorem Takes.fields_succ {fuel : Nat} (ih : Takes fuel) {input rest : List Char}
    {read fs : List (PyString × Value)}
    (h : JsonText.fields (fuel + 1) read input = some (fs, rest)) :
    rest.length < input.length ∧
      ∀ n, input.length ≤ n → StringsBelow n read → StringsBelow n fs := by
  simp only [JsonText.fields] at h
  split at h
  · rename_i tail
    split at h
    · cases h
    · rename_i key tail₁ hkey
      have hlt := length_string hkey
      have hskip₁ := length_skip tail₁
      split at h
      · rename_i tail₂ heq₁
        rw [heq₁, List.length_cons] at hskip₁
        have hskip₂ := length_skip tail₂
        split at h
        · cases h
        · rename_i v tail₃ hv
          obtain ⟨hlt₃, hstr, _⟩ := ih.value hv
          have hskip₃ := length_skip tail₃
          simp only [List.length_cons]
          have hput : ∀ n, tail.length + 1 ≤ n → StringsBelow n read →
              StringsBelow n (put read key v) := fun n hn hread =>
            hread.put fun s hs => by
              have := hstr s hs
              omega
          split at h
          · rename_i tail₄ heq₃
            cases h
            rw [heq₃, List.length_cons] at hskip₃
            exact ⟨by omega, hput⟩
          · rename_i tail₄ heq₃
            rw [heq₃, List.length_cons] at hskip₃
            have hskip₄ := length_skip tail₄
            obtain ⟨hlt₄, hbelow⟩ := ih.fields h
            exact ⟨by omega, fun n hn hread => hbelow n (by omega) (hput n hn hread)⟩
          · cases h
      · cases h
  · cases h

theorem takes (fuel : Nat) : Takes fuel := by
  induction fuel with
  | zero => exact ⟨nofun, nofun, nofun⟩
  | succ fuel ih => exact ⟨ih.value_succ, ih.items_succ, ih.fields_succ⟩

/-- The fuel of a reading does not matter once it exceeds twice the length of the input. -/
structure Enough (fuel : Nat) : Prop where
  value : ∀ {other input}, 2 * input.length < fuel → 2 * input.length < other →
    value fuel input = value other input
  items : ∀ {other input}, 2 * input.length + 1 < fuel → 2 * input.length + 1 < other →
    items fuel input = items other input
  fields : ∀ {other read input}, 2 * input.length + 1 < fuel → 2 * input.length + 1 < other →
    fields fuel read input = fields other read input

section Fuel

variable {fuel other : Nat} {input : List Char}

theorem Enough.value_succ (ih : Enough fuel) (h : 2 * input.length < fuel + 1)
    (h' : 2 * input.length < other + 1) :
    JsonText.value (fuel + 1) input = JsonText.value (other + 1) input := by
  simp only [JsonText.value]
  split
  · rfl
  · rename_i rest
    have hskip := length_skip rest
    simp only [List.length_cons] at h h'
    split
    · rfl
    · exact congrArg _ (ih.fields (by omega) (by omega))
  · rename_i rest
    have hskip := length_skip rest
    simp only [List.length_cons] at h h'
    split
    · rfl
    · exact congrArg _ (ih.items (by omega) (by omega))
  · rfl

theorem Enough.items_succ (ih : Enough fuel) (h : 2 * input.length + 1 < fuel + 1)
    (h' : 2 * input.length + 1 < other + 1) :
    JsonText.items (fuel + 1) input = JsonText.items (other + 1) input := by
  have hvalue : JsonText.value fuel input = JsonText.value other input :=
    ih.value (by omega) (by omega)
  simp only [JsonText.items, hvalue]
  split
  · rfl
  · rename_i v rest hv
    have hlt := ((takes other).value hv).1
    have hskip := length_skip rest
    split
    · rfl
    · rename_i tail heq
      have hskip' := length_skip tail
      rw [heq, List.length_cons] at hskip
      exact congrArg _ (ih.items (by omega) (by omega))
    · rfl

theorem Enough.fields_succ (ih : Enough fuel) {read : List (PyString × Value)}
    (h : 2 * input.length + 1 < fuel + 1) (h' : 2 * input.length + 1 < other + 1) :
    JsonText.fields (fuel + 1) read input = JsonText.fields (other + 1) read input := by
  simp only [JsonText.fields]
  split
  · rename_i tail
    simp only [List.length_cons] at h h'
    split
    · rfl
    · rename_i key tail₁ hkey
      have hlt := length_string hkey
      have hskip₁ := length_skip tail₁
      split
      · rename_i tail₂ heq₁
        rw [heq₁, List.length_cons] at hskip₁
        have hskip₂ := length_skip tail₂
        have hvalue : JsonText.value fuel (skip tail₂) = JsonText.value other (skip tail₂) :=
          ih.value (by omega) (by omega)
        rw [hvalue]
        split
        · rfl
        · rename_i v tail₃ hv
          have hlt₃ := ((takes other).value hv).1
          have hskip₃ := length_skip tail₃
          split
          · rfl
          · rename_i tail₄ heq₃
            rw [heq₃, List.length_cons] at hskip₃
            have hskip₄ := length_skip tail₄
            exact ih.fields (by omega) (by omega)
          · rfl
      · rfl
  · rfl

theorem enough (fuel : Nat) : Enough fuel := by
  induction fuel with
  | zero => exact ⟨fun h _ => by omega, fun h _ => by omega, fun h _ => by omega⟩
  | succ fuel ih =>
    refine ⟨fun {other _} h h' => ?_, fun {other _} h h' => ?_, fun {other _ _} h h' => ?_⟩
    · obtain _ | other := other
      · omega
      · exact ih.value_succ h h'
    · obtain _ | other := other
      · omega
      · exact ih.items_succ h h'
    · obtain _ | other := other
      · omega
      · exact ih.fields_succ h h'

end Fuel

/-- More fuel than `loads` has reads nothing else. -/
theorem value_of_fuel {text : List Char} {fuel : Nat} (h : 2 * text.length < fuel) :
    value fuel (skip text) = value (2 * text.length + 1) (skip text) := by
  have hskip := length_skip text
  exact (enough fuel).value (by omega) (by omega)

end Fairy.Lib.JsonText
