import CompilerSymbols.Proofs.Types.Form

namespace CompilerSymbols.TypeForm

def optional (omitted : Bool) (opening text closing : List Char) : List Char :=
  if omitted then [] else opening ++ text ++ closing

mutual

def chars : TypeForm → List Char
  | builtin .nil => ['(', ')']
  | builtin b => b.name.toList
  | container .array elem =>
    (if elem.isUnion then '(' :: (elem.chars ++ [')']) else elem.chars) ++ ['[', ']']
  | container c k => c.name.toList ++ optional (k.isBuiltin .any) ['<'] k.chars ['>']
  | function ps r =>
    "function (".toList ++ ([',', ' '].intercalate (charsAll ps) ++
      ')' :: optional (r.isBuiltin .nil) " returns (".toList r.chars [')'])
  | tuple es => '(' :: ([',', ' '].intercalate (charsAll es) ++ [')'])
  | union ms => ['|'].intercalate (charsAll ms)

def charsAll : List TypeForm → List (List Char)
  | [] => []
  | T :: Ts => T.chars :: charsAll Ts

end

theorem charsAll_eq (Ts : List TypeForm) : charsAll Ts = Ts.map chars := by
  induction Ts with
  | nil => rfl
  | cons T Ts ih => rw [charsAll, ih, List.map_cons]

def wrapped (T : TypeForm) : List Char := if T.isUnion then '(' :: (T.chars ++ [')']) else T.chars

def listed (Ts : List TypeForm) : List Char := [',', ' '].intercalate (Ts.map chars)

theorem chars_array (elem : TypeForm) : (container .array elem).chars = elem.wrapped ++ ['[', ']'] := rfl

theorem chars_container {c : ContainerTag} (hc : c ≠ .array) (k : TypeForm) :
    (container c k).chars = c.name.toList ++ optional (k.isBuiltin .any) ['<'] k.chars ['>'] := by
  cases c with
  | array => exact absurd rfl hc
  | _ => rfl

theorem chars_function (ps : List TypeForm) (r : TypeForm) : (function ps r).chars =
    "function (".toList ++ (listed ps ++ ')' :: optional (r.isBuiltin .nil) " returns (".toList r.chars [')']) := by
  rw [listed, ← charsAll_eq]
  rfl

theorem chars_tuple (es : List TypeForm) : (tuple es).chars = '(' :: (listed es ++ [')']) := by
  rw [listed, ← charsAll_eq]
  rfl

theorem chars_union (ms : List TypeForm) : (union ms).chars = ['|'].intercalate (ms.map chars) := by
  rw [← charsAll_eq]
  rfl

theorem wrapped_of_union {T : TypeForm} (h : T.isUnion = true) : T.wrapped = '(' :: (T.chars ++ [')']) := if_pos h

theorem wrapped_eq_chars {T : TypeForm} (h : T.isUnion = false) : T.wrapped = T.chars := by
  rw [wrapped, h]
  rfl

/-- What follows starts with one of these letters, if there is anything. -/
def Stops (cs r : List Char) : Prop := ∀ c ∈ r.head?, c ∈ cs

/-- In front of what starts with these letters, the texts of two types are told apart. -/
def Reads (f : TypeForm → List Char) (cs : List Char) (A B : TypeForm) : Prop :=
  ∀ r r', Stops cs r → Stops cs r' → f A ++ r = f B ++ r' → A = B ∧ r = r'

def typeStops : List Char := [',', ')', '>']

def memberStops : List Char := '|' :: typeStops

def baseStops : List Char := '[' :: memberStops

def Starts (T : TypeForm) : Prop := ∃ c cs, T.chars = c :: cs ∧ c ∉ baseStops

section Lists

variable {f : TypeForm → List Char} {c : Char} {s cs cs' r r' : List Char} {A B : TypeForm} {As Bs : List TypeForm}

theorem Stops.nil : Stops cs [] := by simp [Stops]

theorem stops_cons : Stops cs (c :: r) ↔ c ∈ cs := by simp [Stops]

theorem Stops.mono (h : Stops cs r) (hcs : cs ⊆ cs') : Stops cs' r := fun c hc => hcs (h c hc)

theorem Stops.ne_cons (hr : Stops cs r) (hc : c ∉ cs) : r ≠ c :: r' := by
  rintro rfl
  exact hc (stops_cons.mp hr)

theorem Starts.append_ne (h : A.Starts) : A.chars ++ r ≠ ')' :: r' := by
  obtain ⟨c, cs, hA, hc⟩ := h
  rw [hA]
  rintro ⟨⟩
  exact hc (by decide)

theorem Reads.mono (h : Reads f cs' A B) (hcs : cs ⊆ cs') : Reads f cs A B :=
  fun r r' hr hr' => h r r' (hr.mono hcs) (hr'.mono hcs)

def rest (f : TypeForm → List Char) (sep : List Char) (As : List TypeForm) : List Char := As.flatMap fun A => sep ++ f A

theorem rest_cons (f : TypeForm → List Char) (sep : List Char) (A : TypeForm) (As : List TypeForm) :
    rest f sep (A :: As) = sep ++ (f A ++ rest f sep As) := by
  rw [rest, List.flatMap_cons, List.append_assoc, rest]

theorem intercalate_map_cons (f : TypeForm → List Char) (sep : List Char) (A : TypeForm) (As : List TypeForm) :
    sep.intercalate ((A :: As).map f) = f A ++ rest f sep As := by
  induction As generalizing A with
  | nil => simp [rest]
  | cons B As ih =>
      rw [List.map_cons, List.map_cons, List.intercalate_cons_cons, ← List.map_cons, ih, rest_cons, List.append_assoc]

theorem stops_rest (hr : Stops cs r) : Stops (c :: cs) (rest f (c :: s) As ++ r) := by
  cases As with
  | nil => exact hr.mono (List.subset_cons_self ..)
  | cons A As =>
      rw [rest_cons]
      exact stops_cons.mpr List.mem_cons_self

theorem rest_reads (hf : ∀ A ∈ As, ∀ B ∈ Bs, Reads f (c :: cs) A B) (hc : c ∉ cs) (hr : Stops cs r) (hr' : Stops cs r')
    (h : rest f (c :: s) As ++ r = rest f (c :: s) Bs ++ r') : As = Bs ∧ r = r' := by
  induction As generalizing Bs with
  | nil =>
      cases Bs with
      | nil => exact ⟨rfl, h⟩
      | cons B Bs =>
          rw [rest_cons] at h
          exact absurd h (hr.ne_cons hc)
  | cons A As ih =>
      cases Bs with
      | nil =>
          rw [rest_cons] at h
          exact absurd h.symm (hr'.ne_cons hc)
      | cons B Bs =>
          simp only [rest_cons, List.append_assoc, List.append_cancel_left_eq] at h
          obtain ⟨rfl, hrest⟩ := hf A List.mem_cons_self B List.mem_cons_self _ _ (stops_rest hr) (stops_rest hr') h
          obtain ⟨rfl, hr⟩ := ih (fun A hA B hB => hf A (List.mem_cons_of_mem _ hA) B (List.mem_cons_of_mem _ hB)) hrest
          exact ⟨rfl, hr⟩

theorem intercalate_reads (hf : ∀ A ∈ As, ∀ B ∈ Bs, Reads f (c :: cs) A B) (hc : c ∉ cs) (hA : As ≠ []) (hB : Bs ≠ [])
    (hr : Stops cs r) (hr' : Stops cs r')
    (h : (c :: s).intercalate (As.map f) ++ r = (c :: s).intercalate (Bs.map f) ++ r') : As = Bs ∧ r = r' := by
  obtain ⟨A, As, rfl⟩ := List.exists_cons_of_ne_nil hA
  obtain ⟨B, Bs, rfl⟩ := List.exists_cons_of_ne_nil hB
  apply rest_reads hf hc hr hr' (s := s)
  simpa only [intercalate_map_cons, rest_cons, List.append_assoc, List.append_cancel_left_eq] using h

theorem listed_cons (A : TypeForm) (As : List TypeForm) : listed (A :: As) = A.chars ++ rest chars [',', ' '] As :=
  intercalate_map_cons ..

theorem listed_reads (hU : ∀ A ∈ As, ∀ B ∈ Bs, Reads chars typeStops A B) (hA : ∀ A ∈ As, Starts A)
    (hB : ∀ B ∈ Bs, Starts B) (h : listed As ++ ')' :: r = listed Bs ++ ')' :: r') : As = Bs ∧ r = r' := by
  cases As with
  | nil =>
      cases Bs with
      | nil => exact ⟨rfl, List.tail_eq_of_cons_eq h⟩
      | cons B Bs =>
          rw [listed_cons, List.append_assoc] at h
          exact absurd h.symm (hB B List.mem_cons_self).append_ne
  | cons A As =>
      cases Bs with
      | nil =>
          rw [listed_cons, List.append_assoc] at h
          exact absurd h (hA A List.mem_cons_self).append_ne
      | cons B Bs =>
          have hclose {r : List Char} : Stops [')'] (')' :: r) := stops_cons.mpr List.mem_cons_self
          obtain ⟨he, hr⟩ := intercalate_reads (fun A hA B hB => (hU A hA B hB).mono (by decide)) (by decide)
            (List.cons_ne_nil _ _) (List.cons_ne_nil _ _) hclose hclose h
          exact ⟨he, List.tail_eq_of_cons_eq hr⟩

end Lists

/-- What the text of a type that is no array begins with. -/
inductive Lead
  | group
  | builtin (b : BuiltinTag)
  | container (c : ContainerTag)
  | function
deriving DecidableEq

namespace Lead

def text : Lead → List Char
  | group => ['(']
  | builtin b => b.name.toList
  | container c => c.name.toList
  | function => "function (".toList

def all : List Lead := group :: function :: (BuiltinTag.all.map builtin ++ ContainerTag.all.map container)

theorem mem_all (l : Lead) : l ∈ all := by
  cases l with
  | group | function => decide
  | builtin b => cases b <;> decide
  | container c => cases c <;> decide

theorem eq_of_begins {l l' : Lead} (h : l.text <+: l'.text) : l = l' := by
  have hall : ∀ l ∈ all, ∀ l' ∈ all, l.text <+: l'.text → l = l' := by decide
  exact hall l l.mem_all l' l'.mem_all h

/-- No beginning is one of another. -/
theorem reads {l l' : Lead} {r r' : List Char} (h : l.text ++ r = l'.text ++ r') : l = l' ∧ r = r' := by
  have hl : l = l' := by
    rcases List.append_eq_append_iff.mp h with ⟨x, hx, -⟩ | ⟨x, hx, -⟩
    · exact eq_of_begins ⟨x, hx.symm⟩
    · exact (eq_of_begins ⟨x, hx.symm⟩).symm
  subst hl
  exact ⟨rfl, List.append_cancel_left h⟩

end Lead

end CompilerSymbols.TypeForm
