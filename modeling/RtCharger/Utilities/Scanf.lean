import RtCharger.Utilities.Text

namespace RtCharger.Utilities

/-!
# Reading a text by a format

`vsscanf` of the C library, as far as responses are read with it: white space and other characters
of a format, and the conversions `%d`, `%s` and `%[^c]`.

* `directives` — a format as the list of its directives;
* `vsscanf` — what is converted, and how often;
* `Takes` — which texts a conversion takes, and what it makes of them;
* `scan_gap_iff`, `scan_quoted_iff` — formats with one conversion behind a fixed text.
-/

/-! ### The functions of the library -/

/-- A directive of a format. -/
inductive Directive where
  /-- Any amount of white space. -/
  | space
  | lit (c : Char)
  /-- `%d`. -/
  | int
  /-- `%s`. -/
  | word
  /-- `%[^c]`. -/
  | upTo (c : Char)
deriving DecidableEq, Repr

/-- What is converted. -/
inductive Scanned where
  | int (n : Int)
  | text (t : Text)
deriving DecidableEq, Repr

/-- The directives of a format. -/
def directives : Text → List Directive
  | []                                    => []
  | '%' :: 'd' :: fmt                     => .int :: directives fmt
  | '%' :: 's' :: fmt                     => .word :: directives fmt
  | '%' :: '[' :: '^' :: c :: ']' :: fmt  => .upTo c :: directives fmt
  | c :: fmt => (if isSpace c then .space else .lit c) :: directives fmt

/-- What a directive does with a text: it takes the beginning of it, it does not match, or the text
    has ended. -/
inductive Input where
  | took (value : Option Scanned) (rest : Text)
  | mismatch
  | ended
deriving DecidableEq, Repr

/-- A decimal number, perhaps with a sign. -/
def readInt (s : Text) : Input :=
  let signed := signOf16 s
  let ds := signed.2.takeWhile Char.isDigit
  if ds = [] then .mismatch
  else .took (some (.int (if signed.1 then -(decimal ds : Int) else decimal ds)))
    (signed.2.dropWhile Char.isDigit)

def Directive.read : Directive → Text → Input
  | .space, s       => .took none (s.dropWhile isSpace)
  | .lit _, []      => .ended
  | .lit c, d :: s  => if d = c then .took none s else .mismatch
  | .int, s         =>
    if s.dropWhile isSpace = [] then .ended else readInt (s.dropWhile isSpace)
  | .word, s        =>
    let s := s.dropWhile isSpace
    if s = [] then .ended
    else .took (some (.text (s.takeWhile fun c => !isSpace c))) (s.dropWhile fun c => !isSpace c)
  | .upTo c, s      =>
    if s = [] then .ended
    else if s.takeWhile (fun d => d != c) = [] then .mismatch
    else .took (some (.text (s.takeWhile fun d => d != c))) (s.dropWhile fun d => d != c)

/-- What is converted, and whether the text ended before the format. -/
def scan : List Directive → Text → List Scanned × Bool
  | [], _      => ([], false)
  | d :: ds, s =>
    match d.read s with
    | .took value rest => (value.toList ++ (scan ds rest).1, (scan ds rest).2)
    | .mismatch        => ([], false)
    | .ended           => ([], true)

/-- `vsscanf`: what it returns, and what it writes. -/
def vsscanf (s fmt : Text) : Int × List Scanned :=
  let r := scan (directives fmt) s
  (if r.1 = [] ∧ r.2 = true then -1 else r.1.length, r.1)

/-! ### What a conversion takes -/

/-- Nothing like that follows. -/
def StopsAt (p : Char → Bool) (rest : Text) : Prop := ∀ c, rest.head? = some c → p c = false

theorem stopsAt_dropWhile (p : Char → Bool) (s : Text) : StopsAt p (s.dropWhile p) := by
  intro c hc
  have hhead := List.head?_dropWhile_not p s
  rw [hc] at hhead
  simpa using hhead

section Span

variable {p : Char → Bool} {t rest : Text}

theorem takeWhile_of_stopsAt (ht : ∀ c ∈ t, p c = true) (hrest : StopsAt p rest) :
    (t ++ rest).takeWhile p = t := by
  rw [List.takeWhile_append_of_pos ht]
  cases rest with
  | nil => simp
  | cons c rest => rw [List.takeWhile_cons_of_neg (by simp [hrest c rfl]), List.append_nil]

theorem dropWhile_of_stopsAt (ht : ∀ c ∈ t, p c = true) (hrest : StopsAt p rest) :
    (t ++ rest).dropWhile p = rest := by
  rw [List.dropWhile_append_of_pos ht]
  cases rest with
  | nil => rfl
  | cons c rest => rw [List.dropWhile_cons_of_neg (by simp [hrest c rfl])]

end Span

/-- The text writes the number, perhaps with a sign. -/
def IsSigned (t : Text) (n : Int) : Prop :=
  ∃ ds, IsDigits ds ∧
    (((t = ds ∨ t = '+' :: ds) ∧ n = decimal ds) ∨ (t = '-' :: ds ∧ n = -(decimal ds : Int)))

/-- The texts that a conversion takes, and what it makes of them. -/
inductive Takes : Directive → Text → Scanned → Prop
  | int {t : Text} {n : Int} (h : IsSigned t n) : Takes .int t (.int n)
  | word {t : Text} (hne : t ≠ []) (h : ∀ c ∈ t, isSpace c = false) : Takes .word t (.text t)
  | upTo {t : Text} {c : Char} (hne : t ≠ []) (h : c ∉ t) : Takes (.upTo c) t (.text t)

theorem Takes.ne_nil {d : Directive} {t : Text} {v : Scanned} (h : Takes d t v) : t ≠ [] := by
  cases h with
  | int h =>
    obtain ⟨ds, hds, ⟨rfl | rfl, -⟩ | ⟨rfl, -⟩⟩ := h
    · exact hds.1
    · exact List.cons_ne_nil _ _
    · exact List.cons_ne_nil _ _
  | word hne _ => exact hne
  | upTo hne _ => exact hne

theorem isSpace_of_isDigit {c : Char} (h : c.isDigit = true) : isSpace c = false := by
  rw [Char.isDigit, Bool.and_eq_true, decide_eq_true_iff, decide_eq_true_iff] at h
  obtain ⟨hlo, hhi⟩ := h
  have hlo' : 48 ≤ c.toNat := hlo
  have hne : c ≠ ' ' := by
    rintro rfl
    exact absurd hlo' (by decide)
  rw [isSpace, Bool.or_eq_false_iff, decide_eq_false_iff_not, Bool.and_eq_false_iff]
  refine ⟨hne, .inr ?_⟩
  rw [decide_eq_false_iff_not]
  omega

/-- What goes on with the text that a conversion takes. -/
def Directive.goesOn : Directive → Char → Bool
  | .int, c    => c.isDigit
  | .word, c   => !isSpace c
  | .upTo d, c => c != d
  | _, _       => false

theorem signOf16_cases (s : Text) :
    (∃ cs, s = '-' :: cs ∧ signOf16 s = (true, cs)) ∨
    (∃ cs, s = '+' :: cs ∧ signOf16 s = (false, cs)) ∨ signOf16 s = (false, s) := by
  unfold signOf16
  split
  · exact .inl ⟨_, rfl, rfl⟩
  · exact .inr (.inl ⟨_, rfl, rfl⟩)
  · exact .inr (.inr rfl)

/-- Digits have no sign before them. -/
theorem signOf16_digits {ds : Text} (h : IsDigits ds) (rest : Text) :
    signOf16 (ds ++ rest) = (false, ds ++ rest) := by
  obtain ⟨c, cs, rfl⟩ := List.exists_cons_of_ne_nil h.1
  have hdigit := h.2 c List.mem_cons_self
  rcases signOf16_cases (c :: cs ++ rest) with ⟨_, hs, -⟩ | ⟨_, hs, -⟩ | hs
  · rw [(List.cons.inj hs).1] at hdigit
    exact absurd hdigit (by decide)
  · rw [(List.cons.inj hs).1] at hdigit
    exact absurd hdigit (by decide)
  · exact hs

/-- `readInt` by the sign that the text has. -/
theorem readInt_eq {s ds rest : Text} {neg : Bool} (hsign : signOf16 s = (neg, ds ++ rest))
    (hds : IsDigits ds) (hrest : StopsAt Char.isDigit rest) :
    readInt s = .took (some (.int (if neg then -(decimal ds : Int) else decimal ds))) rest := by
  rw [readInt, hsign]
  dsimp only
  rw [takeWhile_of_stopsAt hds.2 hrest, dropWhile_of_stopsAt hds.2 hrest, if_neg hds.1]

/-- **A number is read as far as its digits go.** -/
theorem readInt_iff {s : Text} {v : Scanned} :
    (∃ rest, readInt s = .took (some v) rest) ↔
      ∃ t rest, s = t ++ rest ∧ Takes .int t v ∧ StopsAt Char.isDigit rest := by
  constructor
  · rintro ⟨rest, hread⟩
    rw [readInt] at hread
    have hstops := stopsAt_dropWhile Char.isDigit (signOf16 s).2
    have hsplit := List.takeWhile_append_dropWhile (p := Char.isDigit) (l := (signOf16 s).2)
    have hall : ∀ c ∈ (signOf16 s).2.takeWhile Char.isDigit, c.isDigit = true := fun c hc =>
      List.mem_takeWhile_imp hc
    generalize (signOf16 s).2.takeWhile Char.isDigit = ds at hread hsplit hall
    generalize (signOf16 s).2.dropWhile Char.isDigit = left at hread hsplit hstops
    by_cases hne : ds = []
    · rw [if_pos hne] at hread
      cases hread
    rw [if_neg hne] at hread
    have hds : IsDigits ds := ⟨hne, hall⟩
    obtain ⟨hv, -⟩ := Input.took.inj hread
    obtain rfl := Option.some.inj hv
    -- the sign belongs to the text that is taken
    rcases signOf16_cases s with ⟨cs, rfl, hsign⟩ | ⟨cs, rfl, hsign⟩ | hsign
    · rw [hsign] at hsplit ⊢
      refine ⟨'-' :: ds, left, ?_, .int ⟨ds, hds, .inr ⟨rfl, rfl⟩⟩, hstops⟩
      rw [List.cons_append, hsplit]
    · rw [hsign] at hsplit ⊢
      refine ⟨'+' :: ds, left, ?_, .int ⟨ds, hds, .inl ⟨.inr rfl, rfl⟩⟩, hstops⟩
      rw [List.cons_append, hsplit]
    · rw [hsign] at hsplit ⊢
      exact ⟨ds, left, hsplit.symm, .int ⟨ds, hds, .inl ⟨.inl rfl, rfl⟩⟩, hstops⟩
  · rintro ⟨t, rest, rfl, ⟨ds, hds, ⟨rfl | rfl, rfl⟩ | ⟨rfl, rfl⟩⟩, hstops⟩
    · exact ⟨rest, readInt_eq (signOf16_digits hds rest) hds hstops⟩
    · have hsign : signOf16 ('+' :: ds ++ rest) = (false, ds ++ rest) := rfl
      exact ⟨rest, readInt_eq hsign hds hstops⟩
    · have hsign : signOf16 ('-' :: ds ++ rest) = (true, ds ++ rest) := rfl
      exact ⟨rest, readInt_eq hsign hds hstops⟩

theorem readWord_iff {s : Text} (hs : StopsAt isSpace s) {v : Scanned} :
    (∃ rest, Directive.word.read s = .took (some v) rest) ↔
      ∃ t rest, s = t ++ rest ∧ Takes .word t v ∧ StopsAt (fun c => !isSpace c) rest := by
  have hskip : s.dropWhile isSpace = s := dropWhile_of_stopsAt (t := []) nofun hs
  rw [Directive.read, hskip]
  constructor
  · rintro ⟨rest, hread⟩
    split_ifs at hread with hne
    obtain ⟨hv, -⟩ := Input.took.inj hread
    obtain rfl := Option.some.inj hv
    have hfirst : s.takeWhile (fun c => !isSpace c) ≠ [] := by
      obtain ⟨c, cs, rfl⟩ := List.exists_cons_of_ne_nil hne
      rw [List.takeWhile_cons_of_pos (by simp [hs c rfl])]
      exact List.cons_ne_nil _ _
    refine ⟨_, _, (List.takeWhile_append_dropWhile (p := fun c => !isSpace c)).symm,
      .word hfirst fun c hc => ?_, stopsAt_dropWhile _ s⟩
    simpa using List.mem_takeWhile_imp hc
  · rintro ⟨t, rest, rfl, htakes, hstops⟩
    cases htakes with | word hne hall =>
    have hall' : ∀ c ∈ t, (!isSpace c) = true := fun c hc => by simp [hall c hc]
    refine ⟨rest, ?_⟩
    rw [if_neg (List.append_ne_nil_of_left_ne_nil hne rest), takeWhile_of_stopsAt hall' hstops,
      dropWhile_of_stopsAt hall' hstops]

theorem readUpTo_iff {s : Text} {d : Char} {v : Scanned} :
    (∃ rest, (Directive.upTo d).read s = .took (some v) rest) ↔
      ∃ t rest, s = t ++ rest ∧ Takes (.upTo d) t v ∧ StopsAt (fun c => c != d) rest := by
  rw [Directive.read]
  constructor
  · rintro ⟨rest, hread⟩
    split_ifs at hread with hne hfirst
    obtain ⟨hv, -⟩ := Input.took.inj hread
    obtain rfl := Option.some.inj hv
    refine ⟨_, _, (List.takeWhile_append_dropWhile (p := fun c => c != d)).symm,
      .upTo hfirst fun hmem => ?_, stopsAt_dropWhile _ s⟩
    have hd := List.mem_takeWhile_imp hmem
    simp at hd
  · rintro ⟨t, rest, rfl, htakes, hstops⟩
    cases htakes with | upTo hne hnot =>
    have hall : ∀ c ∈ t, (c != d) = true := fun c hc =>
      bne_iff_ne.mpr fun heq => hnot (heq ▸ hc)
    rw [if_neg (List.append_ne_nil_of_left_ne_nil hne rest), takeWhile_of_stopsAt hall hstops,
      dropWhile_of_stopsAt hall hstops, if_neg hne]
    exact ⟨rest, rfl⟩

/-- The conversions that skip white space. -/
def Directive.Skips (d : Directive) : Prop := d = .int ∨ d = .word

/-- What such a conversion takes does not begin with white space. -/
theorem Takes.stopsAt_isSpace {d : Directive} (hd : d.Skips) {t : Text} {v : Scanned}
    (h : Takes d t v) (rest : Text) : StopsAt isSpace (t ++ rest) := by
  intro c hc
  cases h with
  | int h =>
    obtain ⟨ds, ⟨hne, hall⟩, ⟨rfl | rfl, -⟩ | ⟨rfl, -⟩⟩ := h
    · obtain ⟨e, es, rfl⟩ := List.exists_cons_of_ne_nil hne
      obtain rfl := Option.some.inj hc
      exact isSpace_of_isDigit (hall e List.mem_cons_self)
    · obtain rfl := Option.some.inj hc
      rfl
    · obtain rfl := Option.some.inj hc
      rfl
  | word hne h =>
    obtain ⟨e, es, rfl⟩ := List.exists_cons_of_ne_nil hne
    obtain rfl := Option.some.inj hc
    exact h e List.mem_cons_self
  | upTo hne h =>
    rcases hd with hd | hd <;> cases hd

/-- **A conversion behind white space.** -/
theorem read_gap_iff {d : Directive} (hd : d.Skips) {s : Text} {v : Scanned} :
    (∃ rest, d.read (s.dropWhile isSpace) = .took (some v) rest) ↔
      ∃ gap t rest, s = gap ++ t ++ rest ∧ (∀ c ∈ gap, isSpace c = true) ∧ Takes d t v ∧
        StopsAt d.goesOn rest := by
  have hstops := stopsAt_dropWhile isSpace s
  have hcore : (∃ rest, d.read (s.dropWhile isSpace) = .took (some v) rest) ↔
      ∃ t rest, s.dropWhile isSpace = t ++ rest ∧ Takes d t v ∧ StopsAt d.goesOn rest := by
    rcases hd with rfl | rfl
    · have hskip : (s.dropWhile isSpace).dropWhile isSpace = s.dropWhile isSpace :=
        dropWhile_of_stopsAt (t := []) nofun hstops
      rw [Directive.read, hskip]
      by_cases hempty : s.dropWhile isSpace = []
      · rw [if_pos hempty, hempty]
        refine ⟨fun ⟨_, h⟩ => absurd h (by simp), ?_⟩
        rintro ⟨t, rest, heq, htakes, -⟩
        obtain ⟨rfl, rfl⟩ := List.append_eq_nil_iff.mp heq.symm
        exact absurd rfl htakes.ne_nil
      · rw [if_neg hempty]
        exact readInt_iff
    · exact readWord_iff hstops
  rw [hcore]
  constructor
  · rintro ⟨t, rest, heq, htakes, hrest⟩
    refine ⟨s.takeWhile isSpace, t, rest, ?_, fun c hc => List.mem_takeWhile_imp hc, htakes, hrest⟩
    rw [List.append_assoc, ← heq, List.takeWhile_append_dropWhile]
  · rintro ⟨gap, t, rest, rfl, hgap, htakes, hrest⟩
    refine ⟨t, rest, ?_, htakes, hrest⟩
    rw [List.append_assoc]
    exact dropWhile_of_stopsAt hgap (htakes.stopsAt_isSpace hd rest)

/-! ### Formats with one conversion -/

theorem scan_lits (t s : Text) : (scan (t.map .lit) s).1 = [] := by
  induction t generalizing s with
  | nil => rfl
  | cons c t ih =>
    rw [List.map_cons, scan]
    cases s with
    | nil => rfl
    | cons d s =>
      rw [Directive.read]
      split_ifs
      · exact ih s
      · rfl

/-- A fixed text in front. -/
theorem scan_lits_append (head s : Text) (ds : List Directive) (v : Scanned) :
    (scan (head.map .lit ++ ds) s).1 = [v] ↔ ∃ s', s = head ++ s' ∧ (scan ds s').1 = [v] := by
  induction head generalizing s with
  | nil =>
    refine ⟨fun h => ⟨s, rfl, h⟩, ?_⟩
    rintro ⟨s', rfl, h⟩
    exact h
  | cons c head ih =>
    rw [List.map_cons, List.cons_append, scan]
    cases s with
    | nil =>
      refine ⟨fun h => absurd h (List.cons_ne_nil v []).symm, ?_⟩
      rintro ⟨s', heq, -⟩
      exact absurd heq (List.cons_ne_nil c (head ++ s')).symm
    | cons d s =>
      rw [Directive.read]
      by_cases hd : d = c
      · rw [if_pos hd]
        refine (ih s).trans ?_
        subst hd
        simp only [List.cons_append, List.cons.injEq, true_and]
      · rw [if_neg hd]
        refine ⟨fun h => absurd h (List.cons_ne_nil v []).symm, ?_⟩
        rintro ⟨s', heq, -⟩
        exact absurd (List.cons.inj heq).1 hd

/-- The one conversion, and a fixed text that may be missing. -/
theorem scan_last (d : Directive) (tail s : Text) (v : Scanned) :
    (scan (d :: tail.map .lit) s).1 = [v] ↔ ∃ rest, d.read s = .took (some v) rest := by
  rw [scan]
  cases hread : d.read s with
  | took value rest =>
    dsimp only
    rw [scan_lits, List.append_nil]
    cases value with
    | none => simp
    | some w => simp
  | mismatch => simp
  | ended => simp

/-- **A fixed text, white space and a conversion.** -/
theorem scan_gap_iff (head : Text) {d : Directive} (hd : d.Skips) {s : Text} {v : Scanned} :
    (scan (head.map .lit ++ [.space, d]) s).1 = [v] ↔
      ∃ gap t rest, s = head ++ gap ++ t ++ rest ∧ (∀ c ∈ gap, isSpace c = true) ∧ Takes d t v ∧
        StopsAt d.goesOn rest := by
  rw [scan_lits_append]
  constructor
  · rintro ⟨s', rfl, hscan⟩
    obtain ⟨gap, t, rest, rfl, hall⟩ := (read_gap_iff hd).mp
      ((scan_last d [] (s'.dropWhile isSpace) v).mp hscan)
    exact ⟨gap, t, rest, by simp only [List.append_assoc], hall⟩
  · rintro ⟨gap, t, rest, rfl, hall⟩
    refine ⟨gap ++ t ++ rest, by simp only [List.append_assoc], ?_⟩
    exact (scan_last d [] _ v).mpr ((read_gap_iff hd).mpr ⟨gap, t, rest, rfl, hall⟩)

/-- **A fixed text, white space and a text in quotes.** -/
theorem scan_quoted_iff (head : Text) {q : Char} (hq : isSpace q = false) {s : Text}
    {v : Scanned} :
    (scan (head.map .lit ++ [.space, .lit q, .upTo q, .lit q]) s).1 = [v] ↔
      ∃ gap t rest, s = head ++ gap ++ q :: t ++ rest ∧ (∀ c ∈ gap, isSpace c = true) ∧
        Takes (.upTo q) t v ∧ StopsAt (Directive.upTo q).goesOn rest := by
  have hinner : ∀ s', (scan [.space, .lit q, .upTo q, .lit q] s').1 = [v] ↔
      ∃ r, s'.dropWhile isSpace = q :: r ∧
        ∃ rest, (Directive.upTo q).read r = .took (some v) rest := by
    intro s'
    refine (scan_lits_append [q] (s'.dropWhile isSpace) [.upTo q, .lit q] v).trans ?_
    exact exists_congr fun r => and_congr_right fun _ => scan_last (.upTo q) [q] r v
  rw [scan_lits_append]
  constructor
  · rintro ⟨s', rfl, hscan⟩
    obtain ⟨r, hdrop, hread⟩ := (hinner s').mp hscan
    obtain ⟨t, rest, rfl, hall⟩ := readUpTo_iff.mp hread
    refine ⟨s'.takeWhile isSpace, t, rest, ?_, fun c hc => List.mem_takeWhile_imp hc, hall⟩
    rw [List.append_assoc, List.append_assoc, List.cons_append, ← hdrop,
      List.takeWhile_append_dropWhile]
  · rintro ⟨gap, t, rest, rfl, hgap, hall⟩
    refine ⟨gap ++ q :: t ++ rest, by simp only [List.append_assoc], (hinner _).mpr ?_⟩
    refine ⟨t ++ rest, ?_, readUpTo_iff.mpr ⟨t, rest, rfl, hall⟩⟩
    have hstops : StopsAt isSpace (q :: t ++ rest) := fun c hc => Option.some.inj hc ▸ hq
    rw [List.append_assoc]
    exact dropWhile_of_stopsAt hgap hstops

/-- One conversion is counted. -/
theorem vsscanf_eq_one_iff {s fmt : Text} :
    (vsscanf s fmt).1 = 1 ↔ ∃ v, (scan (directives fmt) s).1 = [v] := by
  rw [vsscanf]
  dsimp only
  rw [← List.length_eq_one_iff]
  split_ifs with h
  · rw [h.1]
    exact ⟨fun h => absurd h (by decide), fun h => absurd h (by decide)⟩
  · omega

end RtCharger.Utilities
