import CompilerSymbols.Proofs.Sequence
import CompilerSymbols.Proofs.Text
import CompilerSymbols.Symbol.Kind

namespace CompilerSymbols

namespace BitVocabulary

variable {v : BitVocabulary} {c : BitConstant} {set rest written b : UInt32} {pieces : List String} {bs : List UInt32}

/-- The constants can be told apart by their names, and no name can be taken for a number or for
several pieces. -/
structure Legible (v : BitVocabulary) : Prop where
  distinct : (v.map (·.name)).Nodup
  solid : ∀ c ∈ v, Text.Solid c.name.toList
  nonzero : ∀ c ∈ v, c.name.toList.head? ≠ some '0'

def union (bs : List UInt32) : UInt32 := bs.foldl (· ||| ·) 0

theorem or_and_not (hb : set &&& b = b) (h : written ||| rest = set) : written ||| b ||| (rest &&& ~~~b) = set := by
  subst h
  rw [← UInt32.toBitVec_inj] at hb ⊢
  refine BitVec.eq_of_getLsbD_eq fun i hi => ?_
  have hbit := congrArg (·.getLsbD i) hb
  simp only [UInt32.toBitVec_and, UInt32.toBitVec_or, BitVec.getLsbD_and, BitVec.getLsbD_or,
    Bool.and_eq_right_iff_imp, Bool.or_eq_true, UInt32.toBitVec_not, BitVec.getLsbD_not] at hbit ⊢
  revert hbit
  cases written.toBitVec.getLsbD i <;> cases rest.toBitVec.getLsbD i <;> cases b.toBitVec.getLsbD i <;> simp [hi]

/-- The names that are written and the bits that are left over make up the set, whatever has been
written before. -/
theorem cover_union (v : BitVocabulary) (h : written ||| rest = set) :
    ∃ bs, List.Forall₂ (fun name b => ⟨name, b⟩ ∈ v) (cover set rest v).1 bs ∧
      bs.foldl (· ||| ·) written ||| (cover set rest v).2 = set := by
  induction v generalizing written rest with
  | nil => exact ⟨[], .nil, h⟩
  | cons c v ih =>
      rw [cover]
      split
      · next hc =>
          obtain ⟨bs, hbs, hu⟩ := ih (or_and_not hc.1 h)
          exact ⟨c.bits :: bs, .cons List.mem_cons_self (hbs.imp fun _ _ => List.mem_cons_of_mem c), hu⟩
      · obtain ⟨bs, hbs, hu⟩ := ih h
        exact ⟨bs, hbs.imp fun _ _ => List.mem_cons_of_mem c, hu⟩

theorem named?_of_mem (hd : (v.map (·.name)).Nodup) (hc : c ∈ v) : v.named? c.name = some c.bits := by
  induction v with
  | nil => cases hc
  | cons d v ih =>
      rw [List.map_cons, List.nodup_cons] at hd
      rcases List.mem_cons.mp hc with rfl | hc
      · simp [named?]
      · have hne : d.name ≠ c.name := fun he => hd.1 (he ▸ List.mem_map_of_mem hc)
        rw [named?, List.find?_cons_of_neg (by simpa using hne)]
        exact ih hd.2 hc

def Spells (v : BitVocabulary) (piece : String) (b : UInt32) : Prop :=
  Text.Solid piece.toList ∧ v.readPiece? piece.toList = some b

theorem Legible.spells_name (hv : v.Legible) (hc : c ∈ v) : v.Spells c.name c.bits := by
  refine ⟨hv.solid c hc, ?_⟩
  unfold readPiece?
  split
  · next h => exact absurd (congrArg List.head? h) (hv.nonzero c hc)
  · rw [String.ofList_toList, named?_of_mem hv.distinct hc]

theorem spells_hex (v : BitVocabulary) (b : UInt32) :
    v.Spells (String.ofList ('0' :: 'x' :: Text.hexDigits b.toNat)) b := by
  rw [Spells, String.toList_ofList]
  refine ⟨⟨by simp, ?_⟩, ?_⟩
  · have hsolid : ∀ d < 16, Text.hexDigit d ≠ '|' ∧ Text.isBlank (Text.hexDigit d) = false := by decide +kernel
    intro c hc
    simp only [List.mem_cons] at hc
    rcases hc with rfl | rfl | hc
    · decide
    · decide
    · obtain ⟨d, hd, rfl⟩ := Text.exists_hexDigit_of_mem hc
      exact hsolid d hd
  · rw [readPiece?, Text.hexValue?_hexDigits, Option.bind_some, if_pos b.toNat_lt]
    simp

theorem Legible.exists_spells (hv : v.Legible) (set : UInt32) :
    ∃ bs, List.Forall₂ v.Spells (v.pieces set) bs ∧ union bs = set := by
  obtain ⟨bs, hbs, hu⟩ := cover_union v (UInt32.zero_or (a := set))
  have hnames : List.Forall₂ v.Spells (cover set set v).1 bs := hbs.imp fun _ _ hc => hv.spells_name hc
  rw [pieces]
  generalize cover set set v = covered at hu hnames
  obtain ⟨names, left⟩ := covered
  dsimp only at hu hnames ⊢
  split
  · next hleft =>
      rw [hleft, UInt32.or_zero] at hu
      exact ⟨bs, hnames, hu⟩
  · refine ⟨bs ++ [left], List.rel_append hnames (.cons (spells_hex v left) .nil), ?_⟩
    rw [union, List.foldl_concat]
    exact hu

theorem read?_intercalate (h : List.Forall₂ v.Spells pieces bs) : v.read? (" | ".intercalate pieces) = some (union bs) := by
  cases h with
  | nil => rfl
  | @cons piece b pieces bs hp hps =>
      let ps := (piece :: pieces).map String.toList
      have hspelled : List.Forall₂ (fun p b => Text.Solid p ∧ v.readPiece? p = some b) ps (b :: bs) :=
        List.forall₂_map_left_iff.mpr (.cons hp hps)
      obtain ⟨hsolid, hreads⟩ := (List.forall₂_and_left ps (b :: bs)).mp hspelled
      have htext : (" | ".intercalate (piece :: pieces)).toList = [' ', '|', ' '].intercalate ps :=
        String.toList_intercalate
      have hne : ¬ (Text.trim ([' ', '|', ' '].intercalate ps)).isEmpty := by
        rw [List.isEmpty_iff]
        exact hp.1.trim_joined _ _
      have hsplit : (([' ', '|', ' '].intercalate ps).splitOn '|').map Text.trim = ps :=
        Text.splitOn_joined (l := []) (by simp) hsolid
      rw [read?, htext, if_neg hne, hsplit]
      change (ps.mapM v.readPiece?).map union = _
      rw [mapM_of_forall₂ hreads]
      rfl

theorem Legible.read?_write (hv : v.Legible) (set : UInt32) : v.read? (v.write set) = some set := by
  obtain ⟨bs, hbs, hu⟩ := hv.exists_spells set
  rw [write, read?_intercalate hbs, hu]

theorem Legible.write_injective (hv : v.Legible) : v.write.Injective := by
  intro a b h
  have hread := hv.read?_write a
  rw [h, hv.read?_write b] at hread
  exact (Option.some.inj hread).symm

end BitVocabulary

theorem Flags.legible : vocabulary.Legible := ⟨by decide +kernel, by decide +kernel, by decide +kernel⟩

theorem AttachPoints.legible : vocabulary.Legible := ⟨by decide +kernel, by decide +kernel, by decide +kernel⟩

theorem KindMask.legible : vocabulary.Legible := ⟨by decide +kernel, by decide +kernel, by decide +kernel⟩

structure Lossless {α : Type} (write : α → String) (read? : String → Option α) : Prop where
  read_write : ∀ a, read? (write a) = some a
  write_read : ∀ text a, read? text = some a → read? (write a) = some a ∧ (read? (write a)).map write = some (write a)

theorem Lossless.of_read_write {α : Type} {write : α → String} {read? : String → Option α}
    (h : ∀ a, read? (write a) = some a) : Lossless write read? where
  read_write := h
  write_read _ a _ := ⟨h a, by rw [h a, Option.map_some]⟩

/-- Flags and attach points survive being written, unknown bits included, and kind masks are told apart by how
they are written, although their constants overlap. -/
theorem bit_sets_lossless : Lossless Flags.write Flags.read? ∧ Lossless AttachPoints.write AttachPoints.read? ∧
    (fun mask : KindMask => KindMask.vocabulary.write mask.bits).Injective := by
  refine ⟨.of_read_write fun f => ?_, .of_read_write fun a => ?_, fun a b h => ?_⟩
  · rw [Flags.read?, Flags.write, Flags.legible.read?_write, Option.map_some]
  · rw [AttachPoints.read?, AttachPoints.write, AttachPoints.legible.read?_write, Option.map_some]
  · exact congrArg KindMask.mk (KindMask.legible.write_injective h)

/-- A text that names a bit twice and another one by its number, and a set whose kind is written together with
the category that the kind contains. -/
theorem bit_sets_lossless_overlapping :
    let points : AttachPoints := ⟨0x8000201a⟩
    AttachPoints.read? " FUNCTION|0x80000002 | INVOKABLES " = some points ∧
      points.write = "RESOURCE | ACTION | FUNCTION | WORKER | 0x80000000" ∧ AttachPoints.read? points.write = some points ∧
      (AttachPoints.read? points.write).map AttachPoints.write = some points.write ∧
      KindMask.vocabulary.write (SymbolKind.function.mask.bits) = "INVOKABLE | FUNCTION" := by
  intro points
  have hread : AttachPoints.read? " FUNCTION|0x80000002 | INVOKABLES " = some points := by decide +kernel
  obtain ⟨hagain, hfixed⟩ := bit_sets_lossless.2.1.write_read _ points hread
  exact ⟨hread, by decide +kernel, hagain, hfixed, by decide +kernel⟩

end CompilerSymbols
