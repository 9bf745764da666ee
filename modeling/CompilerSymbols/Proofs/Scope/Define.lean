import CompilerSymbols.Scope

namespace CompilerSymbols.Scope

variable {s s' : Scope} {name : Name} {symbol : SymbolId} {previous : Option SymbolId}

/-- What a definition can do: put the symbol into the entry that the name has, or add an entry. -/
theorem define_cases (h : s.define name symbol = .ok (previous, s')) : s.frozen = false ∧
    ((∃ k n old, s.slots[name]? = some k ∧ s.entries[k]? = some (n, old) ∧ previous = some old ∧
        s' = { s with entries := s.entries.setIfInBounds k (name, symbol) }) ∨
      ((s.slots[name]?.bind fun k => s.entries[k]?) = none ∧ previous = none ∧
        s' = { s with entries := s.entries.push (name, symbol), slots := s.slots.insert name s.size })) := by
  unfold define at h
  split at h
  · cases h
  · next hf =>
      refine ⟨by simpa using hf, ?_⟩
      split at h
      · next k old hk =>
          cases h
          obtain ⟨k', hs, he⟩ := Option.bind_eq_some_iff.mp hk
          obtain ⟨⟨n, old'⟩, hn, hp⟩ := Option.map_eq_some_iff.mp he
          cases hp
          exact .inl ⟨_, n, _, hs, hn, rfl, rfl⟩
      · next hk =>
          cases h
          refine .inr ⟨?_, rfl, rfl⟩
          cases hs : s.slots[name]? with
          | none => rfl
          | some k => simpa [hs] using hk

theorem define_owner (h : s.define name symbol = .ok (previous, s')) : s'.owner = s.owner := by
  obtain ⟨-, ⟨k, n, old, -, -, -, rfl⟩ | ⟨-, -, rfl⟩⟩ := define_cases h <;> rfl

theorem lookup?_define (h : s.define name symbol = .ok (previous, s')) : s'.lookup? name = some symbol := by
  obtain ⟨-, ⟨k, n, old, hs, he, -, rfl⟩ | ⟨-, -, rfl⟩⟩ := define_cases h
  · obtain ⟨hk, -⟩ := Array.getElem?_eq_some_iff.mp he
    simp [lookup?, hs, hk]
  · simp [lookup?, size]

theorem define_count (h : s.define name symbol = .ok (previous, s')) (x : SymbolId) :
    s'.symbols.count x + previous.toList.count x = s.symbols.count x + [symbol].count x := by
  obtain ⟨-, ⟨k, n, old, -, he, rfl, rfl⟩ | ⟨-, rfl, rfl⟩⟩ := define_cases h
  · obtain ⟨hk, hold⟩ := Array.getElem?_eq_some_iff.mp he
    have hl : k < (s.entries.toList.map (·.2)).length := by simpa using hk
    have hm : (s.entries.toList.map (·.2))[k] = old := by simp [hold]
    have hx : (s.entries.toList.map (·.2)).count x ≠ 0 ∨ old ≠ x := by
      by_cases ho : old = x
      · left
        rw [Ne, List.count_eq_zero, Decidable.not_not, ← ho, ← hm]
        exact List.getElem_mem _
      · exact .inr ho
    have hs : (s.entries.setIfInBounds k (name, symbol)).toList.map (·.2) = (s.entries.toList.map (·.2)).set k symbol := by
      simp [List.map_set]
    simp only [symbols, hs, Option.toList_some]
    rw [List.count_set hl, hm]
    simp only [List.count_singleton, beq_iff_eq]
    split <;> split <;> simp_all <;> omega
  · simp [symbols]

theorem define_perm (h : s.define name symbol = .ok (previous, s')) :
    (s'.symbols ++ previous.toList).Perm (s.symbols ++ [symbol]) := by
  rw [List.perm_iff_count]
  intro x
  rw [List.count_append, List.count_append, define_count h]

theorem mem_symbols_define {x : SymbolId} (h : s.define name symbol = .ok (previous, s')) (hx : x ∈ s'.symbols) :
    x ∈ s.symbols ∨ x = symbol := by
  have hm : x ∈ s.symbols ++ [symbol] := (define_perm h).subset (List.mem_append_left _ hx)
  exact (List.mem_append.mp hm).imp_right List.mem_singleton.mp

theorem mem_symbols_of_lookup? {x : SymbolId} (h : s.lookup? name = some x) : x ∈ s.symbols := by
  obtain ⟨e, he, rfl⟩ := Option.map_eq_some_iff.mp h
  obtain ⟨k, -, hk⟩ := Option.bind_eq_some_iff.mp he
  exact List.mem_map_of_mem (List.mem_of_getElem? (Array.getElem?_toList ▸ hk))

end CompilerSymbols.Scope
