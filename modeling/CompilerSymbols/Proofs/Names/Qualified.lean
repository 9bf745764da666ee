import CompilerSymbols.Proofs.Names.Naming
import CompilerSymbols.Symbol.Basic

namespace CompilerSymbols

section Separators

variable {α : Type} {c : α} {l l' r r' : List α}

/-- What can stand before a part: nothing, or something that ends in the separator. -/
def Leads (c : α) (l : List α) : Prop := ∀ x ∈ l.getLast?, x = c

theorem leads_nil : Leads c [] := fun _ hx => nomatch hx

theorem leads_concat (l : List α) : Leads c (l ++ [c]) := by
  intro x hx
  rw [List.getLast?_concat] at hx
  exact (Option.some.inj hx).symm

theorem Leads.eq_nil (h : Leads c (l ++ r)) (hr : c ∉ r) : r = [] := by
  rcases List.eq_nil_or_concat' r with rfl | ⟨r, x, rfl⟩
  · rfl
  · rw [← List.append_assoc] at h
    obtain rfl : x = c := h x List.getLast?_concat
    exact absurd (List.mem_concat_self) hr

/-- A part without the separator can be told from what stands before it. -/
theorem append_inj_of_leads (hl : Leads c l) (hl' : Leads c l') (hr : c ∉ r) (hr' : c ∉ r') (h : l ++ r = l' ++ r') :
    l = l' ∧ r = r' := by
  rcases List.append_eq_append_iff.mp h with ⟨m, rfl, rfl⟩ | ⟨m, rfl, rfl⟩
  · obtain rfl : m = [] := hl'.eq_nil fun hm => hr (List.mem_append_left _ hm)
    simp
  · obtain rfl : m = [] := hl.eq_nil fun hm => hr' (List.mem_append_left _ hm)
    simp

theorem append_inj_of_follows (hr : Leads c r.reverse) (hr' : Leads c r'.reverse) (hl : c ∉ l) (hl' : c ∉ l')
    (h : l ++ r = l' ++ r') : l = l' ∧ r = r' := by
  have hreversed := congrArg List.reverse h
  rw [List.reverse_append, List.reverse_append] at hreversed
  obtain ⟨hrr, hll⟩ := append_inj_of_leads hr hr' (by simpa using hl) (by simpa using hl') hreversed
  exact ⟨List.reverse_inj.mp hll, List.reverse_inj.mp hrr⟩

end Separators

namespace Interner

variable {n : Interner} {texts : List String} {shardOf : String → Fin Name.shardCount} {rs : List NameRequest}
  {a b name : Name} {s t text : String} {cs : List Char} {c : Char} {write : String → String}

theorem Holds.lookup_inj (h : n.Holds texts) (ha : n.lookup a = .ok text) (hb : n.lookup b = .ok text) : a = b :=
  Option.some.inj ((h.lookup_iff.mp ha).symm.trans (h.lookup_iff.mp hb))

theorem Gives.lookup_ok (hg : Gives shardOf rs text name) : (after shardOf rs).lookup name = .ok text := by
  obtain ⟨rs₁, rs₂, n, rfl, hn⟩ := hg
  obtain ⟨texts, h⟩ := exists_after_holds shardOf rs₁
  obtain ⟨-, -, hl⟩ := h.intern_ok hn
  rw [List.append_cons, after, run_append, ← after, after_of_intern hn]
  exact lookup_run hl rs₂

def Avoids (n : Interner) (name : Name) (cs : List Char) : Prop :=
  ∃ text, n.lookup name = .ok text ∧ ∀ c ∈ cs, c ∉ text.toList

theorem Avoids.notMem (h : n.Avoids name cs) (ht : n.lookup name = .ok text) (hc : c ∈ cs) : c ∉ text.toList := by
  obtain ⟨text', ht', h⟩ := h
  cases ht.symm.trans ht'
  exact h c hc

/-- How a part is written that is left out together with its separator when it is empty. -/
inductive Part (n : Interner) (write : String → String) : Name → String → Prop
  | omitted : Part n write .empty ""
  | given {name : Name} {text : String} (ht : n.lookup name = .ok text) : Part n write name (write text)

theorem part_ok {f : String → Except Fault String} (h : (if name.isEmpty then (do let s ← pure ""; f s)
    else (do let s ← (n.lookup name).map write; f s)) = .ok text) : ∃ s, n.Part write name s ∧ f s = .ok text := by
  split at h
  · next he =>
      obtain rfl : name = .empty := congrArg Name.mk (eq_of_beq he)
      exact ⟨"", .omitted, h⟩
  · obtain ⟨s, hs, h⟩ := bind_ok h
    obtain ⟨t, ht, rfl⟩ := map_ok hs
    exact ⟨write t, .given ht, h⟩

theorem Part.leads (h : n.Part (· ++ "/") name s) : Leads '/' s.toList := by
  cases h with
  | omitted => exact leads_nil
  | given =>
      rw [String.toList_append]
      exact leads_concat _

theorem Part.leads_reverse (h : n.Part (":" ++ ·) name s) : Leads ':' s.toList.reverse := by
  cases h with
  | omitted => exact leads_nil
  | given =>
      rw [String.toList_append, List.reverse_append]
      exact leads_concat _

theorem Part.name_inj (h : n.Holds texts) (hw : write.Injective) (hne : ∀ t, write t ≠ "") (ha : n.Part write a s)
    (hb : n.Part write b s) : a = b := by
  cases ha with
  | omitted =>
      generalize hs : "" = s at hb
      cases hb with
      | omitted => rfl
      | given => exact absurd hs.symm (hne _)
  | given ha =>
      generalize hs : write _ = s at hb
      cases hb with
      | omitted => exact absurd hs (hne _)
      | given hb =>
          cases hw hs
          exact h.lookup_inj ha hb

end Interner

namespace PackageId

variable {n : Interner} {texts : List String} {p q : PackageId} {text : String}

structure Plain (n : Interner) (p : PackageId) : Prop where
  org : n.Avoids p.org ['/', ':']
  name : n.Avoids p.name ['/', ':']
  version : n.Avoids p.version ['/', ':']

theorem Plain.display_ok (h : p.Plain n) : ∃ text, p.display n = .ok text := by
  obtain ⟨org, ho, -⟩ := h.org
  obtain ⟨name, hn, -⟩ := h.name
  obtain ⟨version, hv, -⟩ := h.version
  rw [display, ho, hn, hv]
  split <;> split <;> exact ⟨_, rfl⟩

theorem parts_of_display (h : p.display n = .ok text) : ∃ org name version, n.Part (· ++ "/") p.org org ∧
    n.lookup p.name = .ok name ∧ n.Part (":" ++ ·) p.version version ∧ text = org ++ name ++ version := by
  unfold display at h
  obtain ⟨org, ho, h⟩ := Interner.part_ok h
  obtain ⟨name, hn, h⟩ := bind_ok h
  obtain ⟨version, hv, h⟩ := Interner.part_ok h
  cases h
  exact ⟨org, name, version, ho, hn, hv, rfl⟩

theorem Plain.colon_notMem {org name : String} (h : p.Plain n) (ho : n.Part (· ++ "/") p.org org)
    (hn : n.lookup p.name = .ok name) : ':' ∉ (org ++ name).toList := by
  rw [String.toList_append, List.mem_append, not_or]
  refine ⟨?_, h.name.notMem hn (by simp)⟩
  generalize hp : p.org = part at ho
  cases ho with
  | omitted => simp
  | given ht => simpa using h.org.notMem (hp ▸ ht) (by simp)

theorem eq_of_display (h : n.Holds texts) (hp : p.Plain n) (hq : q.Plain n) (ht : p.display n = .ok text)
    (ht' : q.display n = .ok text) : p = q := by
  obtain ⟨org, name, version, ho, hn, hv, he⟩ := parts_of_display ht
  obtain ⟨org', name', version', ho', hn', hv', he'⟩ := parts_of_display ht'
  have hchars : (org ++ name).toList ++ version.toList = (org' ++ name').toList ++ version'.toList := by
    rw [← String.toList_append, ← String.toList_append, ← he, ← he']
  -- The version starts at the first colon, and the name after the last slash before it.
  obtain ⟨hrest, hversion⟩ := append_inj_of_follows hv.leads_reverse hv'.leads_reverse (hp.colon_notMem ho hn)
    (hq.colon_notMem ho' hn') hchars
  rw [String.toList_append, String.toList_append] at hrest
  obtain ⟨horg, hname⟩ := append_inj_of_leads ho.leads ho'.leads (hp.name.notMem hn (by simp))
    (hq.name.notMem hn' (by simp)) hrest
  cases String.toList_inj.mp horg
  cases String.toList_inj.mp hname
  cases String.toList_inj.mp hversion
  have hslash : (· ++ "/" : String → String).Injective := fun s t he =>
    String.toList_inj.mp (by simpa using congrArg String.toList he)
  have hcolon : (":" ++ · : String → String).Injective := fun s t he =>
    String.toList_inj.mp (by simpa using congrArg String.toList he)
  obtain ⟨pOrg, pName, pVersion⟩ := p
  obtain ⟨qOrg, qName, qVersion⟩ := q
  cases ho.name_inj h hslash (fun t => by simp) ho'
  cases h.lookup_inj hn hn'
  cases hv.name_inj h hcolon (fun t => by simp) hv'
  rfl

end PackageId

namespace Symbol

variable {n : Interner} {texts : List String} {s a b : Symbol} {text : String}

structure Plain (n : Interner) (s : Symbol) : Prop where
  package : ∀ p ∈ s.package, p.Plain n
  name : n.Avoids s.name [':']

theorem Plain.qualifiedName_ok (h : s.Plain n) : ∃ text, s.qualifiedName n = .ok text := by
  obtain ⟨name, hn, -⟩ := h.name
  rw [qualifiedName, hn]
  split
  · next p hp =>
      obtain ⟨text, ht⟩ := (h.package p hp).display_ok
      rw [ht]
      exact ⟨_, rfl⟩
  · exact ⟨name, rfl⟩

inductive Lead (n : Interner) : Option PackageId → String → Prop
  | omitted : Lead n none ""
  | given {p : PackageId} {text : String} (ht : p.display n = .ok text) : Lead n (some p) (text ++ ":")

theorem lead_of_qualifiedName (h : s.qualifiedName n = .ok text) :
    ∃ lead name, Lead n s.package lead ∧ n.lookup s.name = .ok name ∧ text = lead ++ name := by
  unfold qualifiedName at h
  split at h
  · next p hp =>
      obtain ⟨display, hd, h⟩ := bind_ok h
      obtain ⟨name, hn, h⟩ := bind_ok h
      cases h
      rw [hp]
      exact ⟨display ++ ":", name, .given hd, hn, rfl⟩
  · next hp =>
      rw [hp]
      exact ⟨"", text, .omitted, h, (String.empty_append).symm⟩

theorem Lead.leads {p : Option PackageId} {lead : String} (h : Lead n p lead) : Leads ':' lead.toList := by
  cases h with
  | omitted => exact leads_nil
  | given =>
      rw [String.toList_append]
      exact leads_concat _

theorem Lead.package_inj {p q : Option PackageId} {lead : String} (h : n.Holds texts) (hp : Lead n p lead)
    (hq : Lead n q lead) (hp' : ∀ p' ∈ p, p'.Plain n) (hq' : ∀ q' ∈ q, q'.Plain n) : p = q := by
  cases hp with
  | omitted =>
      generalize hl : "" = lead at hq
      cases hq with
      | omitted => rfl
      | given => simp at hl
  | @given p' text hd =>
      generalize hl : text ++ ":" = lead at hq
      cases hq with
      | omitted => simp at hl
      | @given q' text' hd' =>
          obtain rfl : text = text' := String.toList_inj.mp (by simpa using congrArg String.toList hl)
          rw [PackageId.eq_of_display h (hp' p' rfl) (hq' q' rfl) hd hd']

theorem eq_of_qualifiedName (h : n.Holds texts) (ha : a.Plain n) (hb : b.Plain n) (ht : a.qualifiedName n = .ok text)
    (ht' : b.qualifiedName n = .ok text) : a.package = b.package ∧ a.name = b.name := by
  obtain ⟨lead, name, hl, hn, he⟩ := lead_of_qualifiedName ht
  obtain ⟨lead', name', hl', hn', he'⟩ := lead_of_qualifiedName ht'
  have hchars : lead.toList ++ name.toList = lead'.toList ++ name'.toList := by
    rw [← String.toList_append, ← String.toList_append, ← he, ← he']
  obtain ⟨hlead, hname⟩ := append_inj_of_leads hl.leads hl'.leads (ha.name.notMem hn (by simp))
    (hb.name.notMem hn' (by simp)) hchars
  cases String.toList_inj.mp hlead
  cases String.toList_inj.mp hname
  exact ⟨hl.package_inj h hl' ha.package hb.package, h.lookup_inj hn hn'⟩

end Symbol

namespace Interner

/-- Packages and declarations whose parts are free of separators can be told apart by how they are written. -/
structure Identifies (shardOf : String → Fin Name.shardCount) (rs : List NameRequest) : Prop where
  given : ∀ text name, Gives shardOf rs text name → (after shardOf rs).lookup name = .ok text
  display : ∀ p : PackageId, p.Plain (after shardOf rs) → ∃ text, p.display (after shardOf rs) = .ok text
  package : ∀ p q : PackageId, p.Plain (after shardOf rs) → q.Plain (after shardOf rs) →
    p.display (after shardOf rs) = q.display (after shardOf rs) → p.org = q.org ∧ p.name = q.name ∧ p.version = q.version
  qualifiedName : ∀ s : Symbol, s.Plain (after shardOf rs) → ∃ text, s.qualifiedName (after shardOf rs) = .ok text
  symbol : ∀ a b : Symbol, a.Plain (after shardOf rs) → b.Plain (after shardOf rs) →
    a.qualifiedName (after shardOf rs) = b.qualifiedName (after shardOf rs) → a.package = b.package ∧ a.name = b.name

theorem qualified_names_identify (shardOf : String → Fin Name.shardCount) (rs : List NameRequest) :
    Identifies shardOf rs := by
  obtain ⟨texts, h⟩ := exists_after_holds shardOf rs
  refine ⟨fun _ _ => Gives.lookup_ok, fun _ => PackageId.Plain.display_ok, ?_, fun _ => Symbol.Plain.qualifiedName_ok, ?_⟩
  · intro p q hp hq he
    obtain ⟨text, ht⟩ := hp.display_ok
    cases PackageId.eq_of_display h hp hq ht (he ▸ ht)
    exact ⟨rfl, rfl, rfl⟩
  · intro a b ha hb he
    obtain ⟨text, ht⟩ := ha.qualifiedName_ok
    exact Symbol.eq_of_qualifiedName h ha hb ht (he ▸ ht)

/-- A package with all parts and one with a name only, with a declaration of one name in each of them and in
no package. -/
theorem qualified_names_identify_slash :
    let rs : List NameRequest := [.intern "acme", .intern "geo", .intern "1.0", .intern "a/b"]
    let n := after (fun _ => 0) rs
    let p : PackageId := ⟨⟨25⟩, ⟨26⟩, ⟨27⟩⟩
    let q : PackageId := ⟨.empty, ⟨26⟩, .empty⟩
    let s (package : Option PackageId) : Symbol := ⟨.type, ∅, ⟨28⟩, package, .int, none, none⟩
    Identifies (fun _ => 0) rs ∧ p.Plain n ∧ q.Plain n ∧ (∀ package ∈ [some p, some q, none], (s package).Plain n) ∧
      p.display n = .ok "acme/geo:1.0" ∧ q.display n = .ok "geo" ∧
      (s (some p)).qualifiedName n = .ok "acme/geo:1.0:a/b" ∧ (s (some q)).qualifiedName n = .ok "geo:a/b" ∧
      (s none).qualifiedName n = .ok "a/b" := by
  intro rs n p q s
  have havoids {name : Name} (text : String) {cs : List Char} (ht : n.lookup name = .ok text)
      (hc : ∀ c ∈ cs, c ∉ text.toList) : n.Avoids name cs := ⟨text, ht, hc⟩
  have hempty : n.Avoids .empty ['/', ':'] := havoids "" (by decide +kernel) (by simp)
  have horg : n.Avoids ⟨25⟩ ['/', ':'] := havoids "acme" (by decide +kernel) (by simp)
  have hgeo : n.Avoids ⟨26⟩ ['/', ':'] := havoids "geo" (by decide +kernel) (by simp)
  have hversion : n.Avoids ⟨27⟩ ['/', ':'] := havoids "1.0" (by decide +kernel) (by simp)
  have hname : n.Avoids ⟨28⟩ [':'] := havoids "a/b" (by decide +kernel) (by simp)
  have hp : p.Plain n := ⟨horg, hgeo, hversion⟩
  have hq : q.Plain n := ⟨hempty, hgeo, hempty⟩
  have hs : ∀ package ∈ [some p, some q, none], (s package).Plain n := by
    intro package hm
    refine ⟨fun r hr => ?_, hname⟩
    obtain rfl : package = some r := hr
    simp only [List.mem_cons, Option.some.injEq, reduceCtorEq, List.not_mem_nil, or_false] at hm
    rcases hm with rfl | rfl
    · exact hp
    · exact hq
  exact ⟨qualified_names_identify _ rs, hp, hq, hs, by decide +kernel⟩

end Interner

end CompilerSymbols
