import CompilerSymbols.Interner

namespace CompilerSymbols.Interner

variable {n n' : Interner} {text t : String} {name : Name}

theorem lookup_add (h : n.lookup name = .ok t) : (n.add text).lookup name = .ok t := by
  unfold lookup at h
  split at h
  · next t' hs =>
      cases h
      obtain ⟨hlt, -⟩ := Array.getElem?_eq_some_iff.mp hs
      have hx : (n.add text).shards[name.shard].texts[name.slot]? = some t := by
        rw [add, Fin.getElem_fin, Vector.getElem_set]
        split
        · next hk =>
            have hk' : n.shardOf text = name.shard := Fin.ext hk
            simp only [hk', Shard.push, Array.getElem?_push_lt hlt]
            exact (Array.getElem?_eq_getElem hlt).symm.trans hs
        · exact hs
      rw [lookup, hx]
  · cases h

theorem lookup_intern {made : Name} (h : n.intern text = .ok (made, n')) (ht : n.lookup name = .ok t) :
    n'.lookup name = .ok t := by
  unfold intern at h
  split at h
  · cases h
    exact ht
  · dsimp only at h
    split at h
    · cases h
      exact lookup_add ht
    · cases h

end CompilerSymbols.Interner
