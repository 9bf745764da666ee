import CompilerSymbols.PackageId
import CompilerSymbols.Proofs.Names.Shards

namespace CompilerSymbols

/-- A request to an interner. Every handle leads to the same texts, so a request does not say
through which one it comes. -/
inductive NameRequest
  | intern (text : String)
  | get (text : String)
  | lookup (name : Name)
deriving DecidableEq

def NameRequest.interned? : NameRequest → Option String
  | intern text => some text
  | _ => none

def NameRequest.ofPackage (org name version : String) : List NameRequest :=
  [intern org, intern name, intern version]

namespace Interner

open NameRequest

variable {n n' : Interner} {shardOf : String → Fin Name.shardCount} {texts : List String}
  {text s t : String} {a b name : Name} {rs : List NameRequest}

/-- Only interning changes anything, and not when the shard is full. -/
def next (n : Interner) : NameRequest → Interner
  | .intern text =>
    match n.intern text with
    | .ok (_, n') => n'
    | .error _ => n
  | .get _ | .lookup _ => n

def run (n : Interner) (rs : List NameRequest) : Interner := rs.foldl next n

def after (shardOf : String → Fin Name.shardCount) (rs : List NameRequest) : Interner :=
  (initial shardOf).run rs

def mentioned (rs : List NameRequest) : List String := "" :: builtinTexts ++ rs.filterMap (·.interned?)

def known (rs : List NameRequest) : List String := (mentioned rs).eraseDups

/-- No shard has more texts than it has slots. -/
def Roomy (shardOf : String → Fin Name.shardCount) (texts : List String) : Prop :=
  ∀ k, (inShard shardOf texts k).length ≤ 2 ^ 28

instance : Decidable (Roomy shardOf texts) := inferInstanceAs (Decidable (∀ _, _))

theorem Roomy.mono {texts' : List String} (h : Roomy shardOf texts') (hp : texts <+: texts') :
    Roomy shardOf texts :=
  fun k => Nat.le_trans (hp.sublist.filter _).length_le (h k)

theorem mentioned_append (rs rs' : List NameRequest) :
    mentioned (rs ++ rs') = mentioned rs ++ rs'.filterMap (·.interned?) := by
  rw [mentioned, List.filterMap_append, ← List.append_assoc, mentioned]

theorem mem_known : text ∈ known rs ↔ text = "" ∨ text ∈ builtinTexts ∨ .intern text ∈ rs := by
  have h (r : NameRequest) : r.interned? = some text ↔ r = .intern text := by
    cases r <;> simp [NameRequest.interned?]
  simp [known, mentioned, h]

theorem known_append (rs rs' : List NameRequest) : known rs <+: known (rs ++ rs') := by
  rw [known, known, mentioned_append, List.eraseDups_append]
  exact List.prefix_append ..

theorem known_intern (rs : List NameRequest) (text : String) : known (rs ++ [.intern text]) =
    if text ∈ known rs then known rs else known rs ++ [text] := by
  have h : mentioned (rs ++ [.intern text]) = mentioned rs ++ [text] := mentioned_append rs [.intern text]
  rw [known, h, eraseDups_concat, known]

theorem run_append (n : Interner) (rs rs' : List NameRequest) : n.run (rs ++ rs') = (n.run rs).run rs' :=
  List.foldl_append

theorem lookup_run (h : n.lookup name = .ok text) (rs : List NameRequest) :
    (n.run rs).lookup name = .ok text := by
  induction rs generalizing n with
  | nil => exact h
  | cons r rs ih =>
      apply ih
      cases r with
      | intern t =>
          rw [next]
          split
          · next hi => exact lookup_intern hi h
          · exact h
      | get t => exact h
      | lookup name => exact h

namespace Holds

theorem get?_isSome (h : n.Holds texts) (hr : Roomy n.shardOf texts) : (n.get? text).isSome ↔ text ∈ texts := by
  constructor
  · intro hs
    obtain ⟨name, hs⟩ := Option.isSome_iff_exists.mp hs
    exact h.mem_of_get? hs
  · intro hm
    obtain ⟨i, hi⟩ := List.getElem?_of_mem (mem_inShard.mpr ⟨hm, rfl⟩ : text ∈ inShard n.shardOf texts _)
    have hlt : i < 2 ^ 28 := Nat.lt_of_lt_of_le (List.getElem?_eq_some_iff.mp hi).1 (hr _)
    obtain ⟨name, hname⟩ := Option.isSome_iff_exists.mp (Name.ofParts?_isSome.mpr ⟨Fin.isLt _, hlt⟩)
    obtain ⟨hk, hslot⟩ := Name.parts_of_ofParts? hname
    have hl : n.lookup name = .ok text := by
      rw [h.lookup_eq_ok, Fin.ext hk, hslot, hi]
    rw [h.lookup_iff.mp hl]
    rfl

theorem intern_new (h : n.Holds texts) (hm : text ∉ texts) (hr : Roomy n.shardOf (texts ++ [text])) :
    ∃ name, n.intern text = .ok (name, n.add text) ∧ (n.add text).get? text = some name := by
  have hnone : n.get? text = none := by
    rw [Option.eq_none_iff_forall_not_mem]
    exact fun name hs => hm (h.mem_of_get? hs)
  have hne : text ≠ "" := fun he => hm (he ▸ h.mem_empty)
  have hlt : n.shards[n.shardOf text].texts.size < 2 ^ 28 := by
    have hle := hr (n.shardOf text)
    rw [inShard_concat, place_of_ne _ hne, if_pos rfl, List.length_append, List.length_singleton] at hle
    rw [(h.shards _).size_eq]
    exact hle
  obtain ⟨name, hname⟩ := Option.isSome_iff_exists.mp (Name.ofParts?_isSome.mpr ⟨Fin.isLt _, hlt⟩)
  refine ⟨name, ?_, (h.add hm).lookup_iff.mp (h.lookup_added hm hname)⟩
  simp only [Interner.intern, hnone, hname]

theorem intern (h : n.Holds texts) {texts' : List String}
    (ht : texts' = if text ∈ texts then texts else texts ++ [text]) (hr : Roomy n.shardOf texts') :
    ∃ name n', n.intern text = .ok (name, n') ∧ n'.shardOf = n.shardOf ∧ n'.Holds texts' ∧
      n'.get? text = some name := by
  subst ht
  by_cases hm : text ∈ texts
  · rw [if_pos hm] at hr ⊢
    obtain ⟨name, hname⟩ := Option.isSome_iff_exists.mp ((h.get?_isSome hr).mpr hm)
    rw [Interner.intern, hname]
    exact ⟨name, n, rfl, rfl, h, hname⟩
  · rw [if_neg hm] at hr ⊢
    obtain ⟨name, hn, hname⟩ := h.intern_new hm hr
    exact ⟨name, n.add text, hn, rfl, h.add hm, hname⟩

theorem run_intern (h : n.Holds texts) {ts : List String} (hn : (texts ++ ts).Nodup)
    (hr : Roomy n.shardOf (texts ++ ts)) : n.run (ts.map .intern) = ts.foldl Interner.add n := by
  induction ts generalizing n texts with
  | nil => rfl
  | cons t ts ih =>
      have ht : t ∉ texts := fun hm => (List.nodup_append.mp hn).2.2 t hm t List.mem_cons_self rfl
      rw [List.append_cons] at hn hr
      obtain ⟨name, hi, -⟩ := h.intern_new ht (hr.mono (List.prefix_append ..))
      have hnext : n.next (.intern t) = n.add t := by
        rw [next, hi]
      rw [List.map_cons, run, List.foldl_cons, hnext, List.foldl_cons]
      exact ih (h.add ht) hn hr

theorem slot_lt (h : n.Holds texts) (hr : Roomy n.shardOf texts) {k : Fin Name.shardCount}
    {slot : Nat} (hs : (n.shards.get k).slots[text]? = some slot) : slot < 2 ^ 28 :=
  Nat.lt_of_lt_of_le (List.getElem?_eq_some_iff.mp (((h.shards k).slots text slot).mp hs)).1 (hr k)

end Holds

theorem shardOf_initial (shardOf : String → Fin Name.shardCount) : (initial shardOf).shardOf = shardOf := by
  have h (ts : List String) (n : Interner) : (ts.foldl add n).shardOf = n.shardOf := by
    induction ts generalizing n with
    | nil => rfl
    | cons t ts ih => exact ih (n.add t)
  exact h builtinTexts (onlyEmpty shardOf)

/-- The builtin texts are there as if each had been interned. -/
theorem run_builtinTexts (shardOf : String → Fin Name.shardCount) :
    (onlyEmpty shardOf).run (builtinTexts.map .intern) = initial shardOf := by
  refine (Holds.onlyEmpty shardOf).run_intern (by decide +kernel) fun k => ?_
  calc (inShard shardOf ([""] ++ builtinTexts) k).length ≤ ([""] ++ builtinTexts).length := List.length_filter_le ..
    _ ≤ 2 ^ 28 := by decide

theorem run_concat (n : Interner) (rs : List NameRequest) (r : NameRequest) : n.run (rs ++ [r]) = (n.run rs).next r :=
  List.foldl_concat ..

theorem known_eq (rs : List NameRequest) {r : NameRequest} (hr : r.interned? = none) : known (rs ++ [r]) = known rs := by
  rw [known, known, mentioned_append, List.filterMap_cons_none hr, List.filterMap_nil, List.append_nil]

theorem after_holds (hr : Roomy shardOf (known rs)) :
    (after shardOf rs).shardOf = shardOf ∧ (after shardOf rs).Holds (known rs) := by
  induction rs using List.reverseRecOn with
  | nil =>
      have hk : known [] = "" :: builtinTexts := by decide +kernel
      rw [after, run, List.foldl_nil, hk]
      exact ⟨shardOf_initial shardOf, .initial shardOf⟩
  | append_singleton rs r ih =>
      obtain ⟨hs, h⟩ := ih (hr.mono (known_append rs [r]))
      rw [after, run_concat]
      cases r with
      | intern text =>
          obtain ⟨name, n', hn, hs', h', -⟩ := h.intern (known_intern rs text) (hs.symm ▸ hr)
          rw [after] at hn
          simp only [next, hn]
          exact ⟨hs'.trans hs, h'⟩
      | get text | lookup name =>
          rw [known_eq rs rfl]
          exact ⟨hs, h⟩

theorem exists_after_holds (shardOf : String → Fin Name.shardCount) (rs : List NameRequest) :
    ∃ texts, (after shardOf rs).Holds texts := by
  induction rs using List.reverseRecOn with
  | nil =>
      rw [after, run, List.foldl_nil]
      exact ⟨_, .initial shardOf⟩
  | append_singleton rs r ih =>
      obtain ⟨texts, h⟩ := ih
      rw [after, run_concat, ← after]
      cases r with
      | intern text =>
          rw [next]
          split
          · next hi =>
              obtain ⟨texts', h', -⟩ := h.intern_ok hi
              exact ⟨texts', h'⟩
          · exact ⟨texts, h⟩
      | get text | lookup name => exact ⟨texts, h⟩

def Gives (shardOf : String → Fin Name.shardCount) (rs : List NameRequest) (text : String) (name : Name) : Prop :=
  ∃ rs₁ rs₂ n, rs = rs₁ ++ .intern text :: rs₂ ∧ (after shardOf rs₁).intern text = .ok (name, n)

def GivesPackage (shardOf : String → Fin Name.shardCount) (rs : List NameRequest) (org name version : String)
    (p : PackageId) : Prop :=
  ∃ rs₁ rs₂ n, rs = rs₁ ++ ofPackage org name version ++ rs₂ ∧
    PackageId.ofTexts (after shardOf rs₁) org name version = .ok (p, n)

theorem after_of_intern (h : (after shardOf rs).intern text = .ok (name, n)) :
    after shardOf (rs ++ [.intern text]) = n := by
  rw [after] at h
  simp only [after, run_concat, next, h]

theorem after_intern (hr : Roomy shardOf (known (rs ++ [.intern text]))) :
    ∃ name, (after shardOf rs).intern text = .ok (name, after shardOf (rs ++ [.intern text])) ∧
      (after shardOf (rs ++ [.intern text])).get? text = some name := by
  obtain ⟨hs, h⟩ := after_holds (hr.mono (known_append rs [.intern text]))
  obtain ⟨name, n', hn, -, -, hname⟩ := h.intern (known_intern rs text) (hs.symm ▸ hr)
  rw [after_of_intern hn]
  exact ⟨name, hn, hname⟩

theorem Gives.get?_eq (hg : Gives shardOf rs text name) (hr : Roomy shardOf (known rs)) :
    (after shardOf rs).get? text = some name := by
  obtain ⟨rs₁, rs₂, n, rfl, hn⟩ := hg
  rw [List.append_cons] at hr ⊢
  have hr₁ := hr.mono (known_append _ rs₂)
  obtain ⟨name', hn', hname⟩ := after_intern hr₁
  cases hn.symm.trans hn'
  obtain ⟨-, h₁⟩ := after_holds hr₁
  obtain ⟨-, h⟩ := after_holds hr
  rw [← h.lookup_iff, after, run_append]
  exact lookup_run (h₁.lookup_iff.mpr hname) rs₂

theorem Gives.lookup_eq (hg : Gives shardOf rs text name) (hr : Roomy shardOf (known rs)) :
    (after shardOf rs).lookup name = .ok text :=
  (after_holds hr).2.lookup_iff.mpr (hg.get?_eq hr)

theorem Gives.eq_iff (ha : Gives shardOf rs s a) (hb : Gives shardOf rs t b) (hr : Roomy shardOf (known rs)) :
    a = b ↔ s = t := by
  constructor
  · rintro rfl
    exact Except.ok.inj ((ha.lookup_eq hr).symm.trans (hb.lookup_eq hr))
  · rintro rfl
    exact Option.some.inj ((ha.get?_eq hr).symm.trans (hb.get?_eq hr))

theorem GivesPackage.parts {org name version : String} {p : PackageId}
    (hp : GivesPackage shardOf rs org name version p) :
    Gives shardOf rs org p.org ∧ Gives shardOf rs name p.name ∧ Gives shardOf rs version p.version := by
  obtain ⟨rs₁, rs₂, n, rfl, hn⟩ := hp
  obtain ⟨⟨a, n₁⟩, h₁, hn⟩ := bind_ok hn
  obtain ⟨⟨b, n₂⟩, h₂, hn⟩ := bind_ok hn
  obtain ⟨⟨c, n₃⟩, h₃, hn⟩ := bind_ok hn
  cases hn
  rw [← after_of_intern h₁] at h₂
  rw [← after_of_intern h₂] at h₃
  have hs : rs₁ ++ ofPackage org name version ++ rs₂ = rs₁ ++ .intern org :: .intern name :: .intern version :: rs₂ :=
    List.append_assoc ..
  have hs' := hs.trans (List.append_cons ..)
  exact ⟨⟨_, _, _, hs, h₁⟩, ⟨_, _, _, hs', h₂⟩, ⟨_, _, _, hs'.trans (List.append_cons ..), h₃⟩⟩

theorem after_ofTexts {org name version : String}
    (hr : Roomy shardOf (known (rs ++ ofPackage org name version))) :
    ∃ p n, PackageId.ofTexts (after shardOf rs) org name version = .ok (p, n) := by
  rw [ofPackage, List.append_cons, List.append_cons] at hr
  have hr₂ := hr.mono (known_append _ _)
  obtain ⟨a, h₁, -⟩ := after_intern (hr₂.mono (known_append _ _))
  obtain ⟨b, h₂, -⟩ := after_intern hr₂
  obtain ⟨c, h₃, -⟩ := after_intern hr
  simp only [PackageId.ofTexts, h₁, h₂, h₃, bind, Except.bind]
  exact ⟨_, _, rfl⟩

/-- In a run, names and texts belong together one to one, and what a text has been given it keeps. -/
structure NamesTexts (shardOf : String → Fin Name.shardCount) (rs : List NameRequest) : Prop where
  gives : ∀ rs₁ text rs₂, rs = rs₁ ++ .intern text :: rs₂ → ∃ name, Gives shardOf rs text name
  lookup : ∀ text name, Gives shardOf rs text name → (after shardOf rs).lookup name = .ok text
  eq_iff : ∀ s t a b, Gives shardOf rs s a → Gives shardOf rs t b → (a = b ↔ s = t)
  empty_iff : ∀ text name, Gives shardOf rs text name → (name = .empty ↔ text = "")
  get_isSome : ∀ text, ((after shardOf rs).get? text).isSome ↔
    text = "" ∨ text ∈ builtinTexts ∨ .intern text ∈ rs
  get_eq : ∀ text name, Gives shardOf rs text name → (after shardOf rs).get? text = some name
  get_intern : ∀ text name, (after shardOf rs).get? text = some name →
    (after shardOf rs).intern text = .ok (name, after shardOf rs)
  unchanged : ∀ r : NameRequest, r.interned? = none → after shardOf (rs ++ [r]) = after shardOf rs
  size : (after shardOf rs).size = (known rs).length
  size_eq_sum : (after shardOf rs).size = ∑ k : Fin Name.shardCount, (after shardOf rs).shards[k].texts.size
  in_range : ∀ (k : Fin Name.shardCount) (text : String) (slot : Nat),
    (after shardOf rs).shards[k].slots[text]? = some slot → (Name.ofParts? k slot).isSome
  package : ∀ rs₁ org name version rs₂, rs = rs₁ ++ ofPackage org name version ++ rs₂ →
    ∃ p, GivesPackage shardOf rs org name version p
  package_parts : ∀ org name version p, GivesPackage shardOf rs org name version p →
    (after shardOf rs).lookup p.org = .ok org ∧ (after shardOf rs).lookup p.name = .ok name ∧
      (after shardOf rs).lookup p.version = .ok version
  package_eq_iff : ∀ org name version org' name' version' p p', GivesPackage shardOf rs org name version p →
    GivesPackage shardOf rs org' name' version' p' → (p = p' ↔ org = org' ∧ name = name' ∧ version = version')

/-- Whatever shard each text is given, its name is its own and stays so in every run, as long as no
shard is full. A run can end at any moment, so this is about all moments. -/
theorem names_match_texts (shardOf : String → Fin Name.shardCount) (rs : List NameRequest)
    (hr : Roomy shardOf (known rs)) : NamesTexts shardOf rs := by
  obtain ⟨hs, h⟩ := after_holds hr
  have hr' : Roomy (after shardOf rs).shardOf (known rs) := hs.symm ▸ hr
  refine
    { gives := ?_, lookup := fun _ _ hg => hg.lookup_eq hr, eq_iff := fun _ _ _ _ ha hb => ha.eq_iff hb hr,
      empty_iff := ?_, get_isSome := ?_, get_eq := fun _ _ hg => hg.get?_eq hr, get_intern := ?_, unchanged := ?_,
      size := h.size_eq, size_eq_sum := h.size_eq_sum, in_range := ?_, package := ?_, package_parts := ?_, package_eq_iff := ?_ }
  · rintro rs₁ text rs₂ rfl
    have hr₁ := hr
    rw [List.append_cons] at hr₁
    obtain ⟨name, hn, -⟩ := after_intern (hr₁.mono (known_append _ rs₂))
    exact ⟨name, rs₁, rs₂, _, rfl, hn⟩
  · intro text name hg
    rw [← h.get?_empty_iff, hg.get?_eq hr, Option.some.injEq]
  · intro text
    rw [h.get?_isSome hr', mem_known]
  · intro text name hn
    simp only [intern, hn]
  · intro r hn
    cases r with
    | intern text => cases hn
    | get text | lookup name => exact run_concat ..
  · intro k text slot hslot
    exact Name.ofParts?_isSome.mpr ⟨k.isLt, h.slot_lt hr' hslot⟩
  · rintro rs₁ org name version rs₂ rfl
    obtain ⟨p, n, hp⟩ := after_ofTexts (hr.mono (known_append _ rs₂))
    exact ⟨p, rs₁, rs₂, n, rfl, hp⟩
  · intro org name version p hp
    obtain ⟨ho, hn, hv⟩ := hp.parts
    exact ⟨ho.lookup_eq hr, hn.lookup_eq hr, hv.lookup_eq hr⟩
  · intro org name version org' name' version' p p' hp hp'
    obtain ⟨ho, hn, hv⟩ := hp.parts
    obtain ⟨ho', hn', hv'⟩ := hp'.parts
    rw [← ho.eq_iff ho' hr, ← hn.eq_iff hn' hr, ← hv.eq_iff hv' hr]
    cases p
    cases p'
    simp

/-- Every text in the shard that the empty one is in, with a text asked for before it is there, one
interned again and a package. -/
theorem names_match_texts_oneShard :
    let rs : List NameRequest := [.get "Person", .intern "Person", .intern "", .lookup .empty,
      .intern "acme", .intern "geo", .intern "0.0.0", .intern "Person", .get "City"]
    Roomy (fun _ => 0) (known rs) ∧ NamesTexts (fun _ => 0) rs ∧ (after (fun _ => 0) rs).size = 28 ∧
      ((after (fun _ => 0) rs).get? "geo").isSome ∧ ¬ ((after (fun _ => 0) rs).get? "City").isSome := by
  intro rs
  have hr : Roomy (fun _ => 0) (known rs) := by decide +kernel
  have h := names_match_texts (fun _ => 0) rs hr
  refine ⟨hr, h, h.size.trans (by decide +kernel), (h.get_isSome "geo").mpr (by decide), ?_⟩
  rw [h.get_isSome "City"]
  decide

end Interner

end CompilerSymbols
