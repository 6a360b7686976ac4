import Oscam.Numerals

/-!
# The timeouts

`chk_t_global` reads `clienttimeout`, `fallbacktimeout` and
`serialreadertimeout`, and `init_config` corrects them at its end.  The
functions are stated for the arithmetic of the types and for one without
bounds, so that a number wrapped around where the two differ.
-/

namespace Oscam.Timeouts

open Monitor (ascii)

/-- What is kept of a number in an `unsigned long` and in a `uint32_t`. -/
structure Arithmetic where
  long : Int → Int
  word : Int → Int

def machine : Arithmetic := { long := (· % 2 ^ 64), word := (· % 2 ^ 32) }

def unbounded : Arithmetic := { long := id, word := id }

/-- `cfg.ctimeout`, `cfg.ftimeout` and `cfg.srtimeout`, and if `errno` is
set. -/
structure Settings where
  ctimeout : Int
  ftimeout : Int
  srtimeout : Int
  errno : Bool
  deriving DecidableEq, Repr

/-- `CS_CLIENT_TIMEOUT`. -/
abbrev csClientTimeout : Int := 5000

/-- A line of the file: one of the settings, or another line with what it
leaves in `errno`. -/
inductive Line
  | clienttimeout (value : List UInt8)
  | fallbacktimeout (value : List UInt8)
  | serialreadertimeout (value : List UInt8)
  | other (errno : Bool)
  deriving DecidableEq, Repr

/-! ## Reading -/

/-- The number of the text has a place in an `unsigned long`, maybe behind a
minus sign. -/
def InRange (value : List UInt8) : Prop := (atol value).natAbs < 2 ^ 64

instance (value : List UInt8) : Decidable (InRange value) :=
  inferInstanceAs (Decidable (_ < _))

/-- `strtoul` with the base ten; it sets `errno` for a number out of range. -/
def strtoul (a : Arithmetic) (value : List UInt8) : Int :=
  if InRange value then a.long (atol value) else 2 ^ 64 - 1

/-- `errno` behind a call of `strtoul`. -/
def errnoAfter (value : List UInt8) (errno : Bool) : Bool :=
  errno || !decide (InRange value)

/-- `strToUIntVal`: the value, and `errno`. -/
def strToUIntVal (a : Arithmetic) (value : List UInt8) (defaultvalue : Int)
    (errno : Bool) : Int × Bool :=
  if value = [] then (defaultvalue, errno)
  else
    let i := a.word (strtoul a value)
    (if errnoAfter value errno then defaultvalue else i,
      errnoAfter value errno)

/-- A number below 100 stands for seconds. -/
def milliseconds (a : Arithmetic) (n : Int) : Int :=
  if n < 100 then a.word (n * 1000) else n

/-- The part of `chk_t_global` for the timeouts. -/
def chkTGlobal (a : Arithmetic) (line : Line) (cfg : Settings) : Settings :=
  match line with
  | .clienttimeout value =>
      let (i, errno) := strToUIntVal a value csClientTimeout cfg.errno
      { cfg with ctimeout := milliseconds a i, errno := errno }
  | .fallbacktimeout value =>
      let (i, errno) := strToUIntVal a value (csClientTimeout / 2) cfg.errno
      { cfg with ftimeout := milliseconds a i, errno := errno }
  | .serialreadertimeout value =>
      -- it is the value before this line that decides about seconds
      let srtimeout :=
        if cfg.srtimeout < 100 then a.word (a.long (strtoul a value * 1000))
        else a.word (strtoul a value)
      { cfg with
        srtimeout := if srtimeout = 0 then 1500 else srtimeout
        errno := errnoAfter value cfg.errno }
  | .other errno => { cfg with errno := errno }

/-- The values that `init_config` begins with. -/
def defaults : Settings :=
  { ctimeout := csClientTimeout, ftimeout := csClientTimeout / 2
    srtimeout := 1500, errno := false }

/-- The values when all lines are read. -/
def readLines (lines : List Line) : Settings :=
  lines.foldl (fun cfg line => chkTGlobal machine line cfg) defaults

/-! ## Correcting -/

/-- The fallback timeout must be smaller than the client timeout. -/
def lowerFallback (a : Arithmetic) (cfg : Settings) : Settings :=
  if cfg.ftimeout ≥ cfg.ctimeout then
    { cfg with ftimeout := a.word (cfg.ctimeout - 100) }
  else cfg

/-- The fallback timeout must be greater than that of the serial readers. -/
def raiseFallback (a : Arithmetic) (cfg : Settings) : Settings :=
  if cfg.ftimeout < cfg.srtimeout then
    { cfg with ftimeout := a.word (cfg.srtimeout + 100) }
  else cfg

/-- The client timeout must be greater than that of the serial readers. -/
def raiseClient (a : Arithmetic) (cfg : Settings) : Settings :=
  if cfg.ctimeout < cfg.srtimeout then
    { cfg with ctimeout := a.word (cfg.srtimeout + 100) }
  else cfg

/-- The timeouts after `init_config`. -/
def initConfig (lines : List Line) : Settings :=
  raiseClient machine (raiseFallback machine
    (lowerFallback machine (readLines lines)))

/-! ## What is asked -/

/-- The order that the corrections are made for. -/
structure Ordered (cfg : Settings) : Prop where
  fallback : cfg.ftimeout < cfg.ctimeout
  serial : cfg.srtimeout ≤ cfg.ftimeout
  client : cfg.srtimeout ≤ cfg.ctimeout

/-- A step stores what it would store if its types had no bounds. -/
def Exact (step : Arithmetic → Settings → Settings) (cfg : Settings) : Prop :=
  step machine cfg = step unbounded cfg

/-- No line and no correction wraps around. -/
structure NoWrap (lines : List Line) : Prop where
  line : ∀ front line back, lines = front ++ line :: back →
    Exact (chkTGlobal · line) (readLines front)
  lower : Exact lowerFallback (readLines lines)
  raise : Exact raiseFallback (lowerFallback machine (readLines lines))
  client : Exact raiseClient
    (raiseFallback machine (lowerFallback machine (readLines lines)))

/-- The number of a line has a place in its setting, or the default is taken
for it. -/
def Fits (cfg : Settings) : Line → Prop
  | .clienttimeout value | .fallbacktimeout value =>
      value = [] ∨ cfg.errno = true ∨ ¬ InRange value ∨
        0 ≤ atol value ∧ atol value < 2 ^ 32
  | .serialreadertimeout value =>
      0 ≤ atol value ∧
        (if cfg.srtimeout < 100 then atol value * 1000 else atol value) < 2 ^ 32
  | .other _ => True

/-- With these values the corrections end in the right order. -/
def Correctable (cfg : Settings) : Prop :=
  cfg.srtimeout + 100 < cfg.ctimeout ∨
    cfg.srtimeout ≤ cfg.ftimeout ∧ cfg.ftimeout < cfg.ctimeout ∨
    cfg.ctimeout = cfg.srtimeout + 100 ∧ cfg.srtimeout ≤ cfg.ftimeout

/-! ## A line -/

/-- A number of the type. -/
def IsWord (n : Int) : Prop := 0 ≤ n ∧ n < 2 ^ 32

instance (n : Int) : Decidable (IsWord n) := inferInstanceAs (Decidable (_ ∧ _))

/-- The fields are numbers of their type. -/
structure Typed (cfg : Settings) : Prop where
  ctimeout : IsWord cfg.ctimeout
  ftimeout : IsWord cfg.ftimeout
  srtimeout : IsWord cfg.srtimeout

variable {cfg : Settings} {value : List UInt8} {n : Int}

theorem isWord_word (n : Int) : IsWord (machine.word n) := by
  constructor
  · exact Int.emod_nonneg n (by decide)
  · exact Int.emod_lt_of_pos n (by decide)

theorem word_eq_self_iff : machine.word n = n ↔ IsWord n := by
  constructor
  · intro same
    rw [← same]
    exact isWord_word n
  · intro word
    exact Int.emod_eq_of_lt word.1 word.2

theorem isWord_strToUIntVal {defaultvalue : Int} (word : IsWord defaultvalue)
    (value : List UInt8) (errno : Bool) :
    IsWord (strToUIntVal machine value defaultvalue errno).1 := by
  unfold strToUIntVal
  split
  · exact word
  · dsimp only
    split
    · exact word
    · exact isWord_word _

theorem isWord_milliseconds (word : IsWord n) :
    IsWord (milliseconds machine n) := by
  unfold milliseconds
  split
  · exact isWord_word _
  · exact word

theorem typed_chkTGlobal (typed : Typed cfg) (line : Line) :
    Typed (chkTGlobal machine line cfg) := by
  cases line with
  | clienttimeout value =>
      exact ⟨isWord_milliseconds (isWord_strToUIntVal (by decide) value _),
        typed.ftimeout, typed.srtimeout⟩
  | fallbacktimeout value =>
      exact ⟨typed.ctimeout,
        isWord_milliseconds (isWord_strToUIntVal (by decide) value _),
        typed.srtimeout⟩
  | serialreadertimeout value =>
      have word : IsWord
          (if cfg.srtimeout < 100 then
            machine.word (machine.long (strtoul machine value * 1000))
          else machine.word (strtoul machine value)) := by
        split <;> exact isWord_word _
      refine ⟨typed.ctimeout, typed.ftimeout, ?_⟩
      unfold chkTGlobal
      dsimp only
      by_cases zero : (if cfg.srtimeout < 100 then
          machine.word (machine.long (strtoul machine value * 1000))
        else machine.word (strtoul machine value)) = 0
      · rw [if_pos zero]
        decide
      · rw [if_neg zero]
        exact word
  | other errno => exact ⟨typed.ctimeout, typed.ftimeout, typed.srtimeout⟩

theorem typed_readLines (lines : List Line) : Typed (readLines lines) := by
  unfold readLines
  induction lines using List.reverseRecOn with
  | nil => exact ⟨by decide, by decide, by decide⟩
  | append_singleton lines line induction =>
      rw [List.foldl_append]
      exact typed_chkTGlobal induction line

/-! ## Numbers that wrap around -/

/-- What `unsigned long` leaves out does not matter to a `uint32_t`. -/
theorem word_long (n : Int) : machine.word (machine.long n) = machine.word n :=
  Int.emod_emod_of_dvd n (by decide)

theorem word_strtoul (value : List UInt8) :
    machine.word (strtoul machine value) =
      machine.word (strtoul unbounded value) := by
  unfold strtoul
  split
  · exact word_long (atol value)
  · rfl

theorem word_strtoul_mul (value : List UInt8) (k : Int) :
    machine.word (machine.long (strtoul machine value * k)) =
      machine.word (strtoul unbounded value * k) := by
  have same := word_strtoul value
  rw [word_long]
  show strtoul machine value * k % 2 ^ 32 = strtoul unbounded value * k % 2 ^ 32
  rw [Int.mul_emod, show strtoul machine value % 2 ^ 32 =
    strtoul unbounded value % 2 ^ 32 from same, ← Int.mul_emod]

/-- The number that is read has a place in a `uint32_t` if and only if the one
of the text has. -/
theorem isWord_strtoul_mul_iff (value : List UInt8) {k : Int} (some : 0 < k) :
    IsWord (strtoul unbounded value * k) ↔
      0 ≤ atol value ∧ atol value * k < 2 ^ 32 := by
  unfold strtoul
  by_cases range : InRange value
  · rw [if_pos range]
    show 0 ≤ atol value * k ∧ _ ↔ _
    rw [mul_nonneg_iff_of_pos_right some]
    rfl
  · rw [if_neg range]
    apply iff_of_false
    · rintro ⟨-, small⟩
      have least : (2 : Int) ^ 64 - 1 ≤ (2 ^ 64 - 1) * k :=
        le_mul_of_one_le_right (by decide) some
      omega
    · rintro ⟨natural, small⟩
      have least : atol value ≤ atol value * k :=
        le_mul_of_one_le_right natural some
      unfold InRange at range
      omega

/-- A number is scaled as it would be without bounds. -/
theorem milliseconds_word_iff (n : Int) :
    milliseconds machine (machine.word n) = milliseconds unbounded n ↔
      IsWord n := by
  unfold milliseconds IsWord
  simp only [machine, unbounded, id_eq]
  split_ifs <;> omega

/-- A setting with a default keeps its number if and only if it fits. -/
theorem strToUIntVal_exact_iff {defaultvalue : Int}
    (many : 100 ≤ defaultvalue) (value : List UInt8) (errno : Bool) :
    milliseconds machine (strToUIntVal machine value defaultvalue errno).1 =
        milliseconds unbounded
          (strToUIntVal unbounded value defaultvalue errno).1 ↔
      value = [] ∨ errno = true ∨ ¬ InRange value ∨
        0 ≤ atol value ∧ atol value < 2 ^ 32 := by
  have taken : milliseconds machine defaultvalue =
      milliseconds unbounded defaultvalue := by
    unfold milliseconds
    rw [if_neg (by omega), if_neg (by omega)]
  unfold strToUIntVal errnoAfter
  by_cases empty : value = []
  · rw [if_pos empty, if_pos empty]
    exact iff_of_true taken (.inl empty)
  rw [if_neg empty, if_neg empty]
  by_cases invalid : errno = true ∨ ¬ InRange value
  · have set : (errno || !decide (InRange value)) = true := by
      simpa using invalid
    dsimp only
    rw [if_pos set, if_pos set]
    exact iff_of_true taken (.inr (or_assoc.mp (.inl invalid)))
  · have clear : ¬ (errno || !decide (InRange value)) = true := by
      simpa using invalid
    dsimp only
    rw [if_neg clear, if_neg clear, word_strtoul]
    have number := isWord_strtoul_mul_iff value Int.one_pos
    rw [mul_one, mul_one] at number
    refine (milliseconds_word_iff _).trans (number.trans ?_)
    constructor
    · exact fun word => .inr (.inr (.inr word))
    · rintro (none | set | range | word)
      · exact absurd none empty
      · exact absurd (.inl set) invalid
      · exact absurd (.inr range) invalid
      · exact word

/-- A timeout of zero is replaced as it would be without bounds. -/
theorem nonzero_word_iff (n : Int) :
    (if machine.word n = 0 then 1500 else machine.word n) =
        (if n = 0 then 1500 else n) ↔ IsWord n := by
  unfold IsWord
  simp only [machine]
  split_ifs <;> omega

/-- The line of the serial readers keeps its number if and only if it fits. -/
theorem serialreadertimeout_exact_iff (value : List UInt8) (cfg : Settings) :
    Exact (chkTGlobal · (.serialreadertimeout value)) cfg ↔
      Fits cfg (.serialreadertimeout value) := by
  unfold Exact chkTGlobal Fits
  simp only [Settings.mk.injEq, true_and, and_true]
  by_cases seconds : cfg.srtimeout < 100
  · simp only [if_pos seconds, word_strtoul_mul]
    exact (nonzero_word_iff _).trans
      (isWord_strtoul_mul_iff value (by decide))
  · simp only [if_neg seconds, word_strtoul]
    have number := isWord_strtoul_mul_iff value Int.one_pos
    rw [mul_one, mul_one] at number
    exact (nonzero_word_iff _).trans number

theorem snd_strToUIntVal (a b : Arithmetic) (value : List UInt8)
    (defaultvalue : Int) (errno : Bool) :
    (strToUIntVal a value defaultvalue errno).2 =
      (strToUIntVal b value defaultvalue errno).2 := by
  unfold strToUIntVal
  split <;> rfl

theorem chkTGlobal_exact_iff (line : Line) (cfg : Settings) :
    Exact (chkTGlobal · line) cfg ↔ Fits cfg line := by
  cases line with
  | clienttimeout value =>
      unfold Exact chkTGlobal
      simp only [Settings.mk.injEq, snd_strToUIntVal machine unbounded,
        and_true]
      exact strToUIntVal_exact_iff (by decide) value cfg.errno
  | fallbacktimeout value =>
      unfold Exact chkTGlobal
      simp only [Settings.mk.injEq, true_and,
        snd_strToUIntVal machine unbounded, and_true]
      exact strToUIntVal_exact_iff (by decide) value cfg.errno
  | serialreadertimeout value => exact serialreadertimeout_exact_iff value cfg
  | other errno => exact iff_of_true rfl trivial

/-! ## The corrections -/

theorem lowerFallback_exact_iff (typed : Typed cfg) :
    Exact lowerFallback cfg ↔ cfg.ftimeout < cfg.ctimeout ∨
      100 ≤ cfg.ctimeout := by
  have client := typed.ctimeout
  unfold Exact lowerFallback
  by_cases below : cfg.ftimeout < cfg.ctimeout
  · simp only [if_neg (not_le.mpr below), below, true_or]
  · simp only [if_pos (not_lt.mp below), Settings.mk.injEq, true_and,
      and_true, below, false_or]
    refine word_eq_self_iff.trans ?_
    unfold IsWord at client ⊢
    omega

theorem raiseFallback_exact_iff (typed : Typed cfg) :
    Exact raiseFallback cfg ↔ cfg.srtimeout ≤ cfg.ftimeout ∨
      cfg.srtimeout + 100 < 2 ^ 32 := by
  have serial := typed.srtimeout
  unfold Exact raiseFallback
  by_cases above : cfg.srtimeout ≤ cfg.ftimeout
  · simp only [if_neg (not_lt.mpr above), above, true_or]
  · simp only [if_pos (not_le.mp above), Settings.mk.injEq, true_and,
      and_true, above, false_or]
    refine word_eq_self_iff.trans ?_
    unfold IsWord at serial ⊢
    omega

theorem lowerFallback_of_lt (below : cfg.ftimeout < cfg.ctimeout) :
    lowerFallback machine cfg = cfg :=
  if_neg (not_le.mpr below)

theorem lowerFallback_of_ge (many : 100 ≤ cfg.ctimeout) (typed : Typed cfg)
    (above : cfg.ctimeout ≤ cfg.ftimeout) :
    lowerFallback machine cfg =
      { cfg with ftimeout := cfg.ctimeout - 100 } := by
  have client := typed.ctimeout
  have kept : machine.word (cfg.ctimeout - 100) = cfg.ctimeout - 100 := by
    refine word_eq_self_iff.mpr ?_
    unfold IsWord at client ⊢
    omega
  unfold lowerFallback
  rw [if_pos above, kept]

/-- Once the fallback timeout is below the client timeout, the other two
corrections keep the order if and only if they have room for it. -/
theorem raise_iff (typed : Typed cfg) (below : cfg.ftimeout < cfg.ctimeout) :
    Ordered (raiseClient machine (raiseFallback machine cfg)) ∧
      Exact raiseFallback cfg ∧
      Exact raiseClient (raiseFallback machine cfg) ↔
      cfg.srtimeout ≤ cfg.ftimeout ∨ cfg.srtimeout + 100 < cfg.ctimeout := by
  have client := typed.ctimeout
  rw [raiseFallback_exact_iff typed]
  by_cases above : cfg.srtimeout ≤ cfg.ftimeout
  · have same : raiseFallback machine cfg = cfg := if_neg (not_lt.mpr above)
    have kept (a : Arithmetic) : raiseClient a cfg = cfg :=
      if_neg (by omega)
    rw [same, kept, Exact, kept, kept]
    exact iff_of_true ⟨⟨below, above, by omega⟩, .inl above, rfl⟩ (.inl above)
  · by_cases room : cfg.srtimeout + 100 < 2 ^ 32
    · have word : machine.word (cfg.srtimeout + 100) =
          cfg.srtimeout + 100 := by
        have serial := typed.srtimeout
        refine word_eq_self_iff.mpr ?_
        unfold IsWord at serial ⊢
        omega
      have raised : raiseFallback machine cfg =
          { cfg with ftimeout := cfg.srtimeout + 100 } := by
        unfold raiseFallback
        rw [if_pos (not_le.mp above), word]
      rw [raised]
      by_cases short : cfg.ctimeout < cfg.srtimeout
      · -- both end at the same value
        apply iff_of_false
        · rintro ⟨order, -, -⟩
          have fallback := order.fallback
          unfold raiseClient at fallback
          simp only [if_pos short, word, lt_irrefl] at fallback
        · omega
      · have kept (a : Arithmetic) :
            raiseClient a { cfg with ftimeout := cfg.srtimeout + 100 } =
              { cfg with ftimeout := cfg.srtimeout + 100 } :=
          if_neg short
        rw [kept, Exact, kept, kept]
        constructor
        · rintro ⟨order, -, -⟩
          exact .inr order.fallback
        · rintro (low | high)
          · exact absurd low above
          · exact ⟨⟨high, by dsimp only; omega, by dsimp only; omega⟩,
              .inr room, rfl⟩
    · apply iff_of_false
      · rintro ⟨-, low | small, -⟩
        · exact above low
        · exact room small
      · unfold IsWord at client
        omega

/-- The corrections end in the right order, with no number wrapped around, if
and only if the values before them are far enough apart. -/
theorem corrections_iff (typed : Typed cfg) :
    Ordered (raiseClient machine (raiseFallback machine
        (lowerFallback machine cfg))) ∧
      Exact lowerFallback cfg ∧
      Exact raiseFallback (lowerFallback machine cfg) ∧
      Exact raiseClient (raiseFallback machine (lowerFallback machine cfg)) ↔
      Correctable cfg := by
  have serial := typed.srtimeout
  unfold IsWord at serial
  rw [lowerFallback_exact_iff typed]
  unfold Correctable
  by_cases below : cfg.ftimeout < cfg.ctimeout
  · rw [lowerFallback_of_lt below]
    have rest := raise_iff typed below
    constructor
    · rintro ⟨order, -, raise, client⟩
      have apart := rest.mp ⟨order, raise, client⟩
      omega
    · intro apart
      obtain ⟨order, raise, client⟩ := rest.mpr (by omega)
      exact ⟨order, .inl below, raise, client⟩
  · by_cases many : 100 ≤ cfg.ctimeout
    · have lowered := lowerFallback_of_ge many typed (not_lt.mp below)
      have typed' : Typed { cfg with ftimeout := cfg.ctimeout - 100 } := by
        refine ⟨typed.ctimeout, ?_, typed.srtimeout⟩
        have client := typed.ctimeout
        unfold IsWord at client ⊢
        dsimp only
        omega
      have rest := raise_iff typed' (by dsimp only; omega)
      dsimp only at rest
      rw [lowered]
      constructor
      · rintro ⟨order, -, raise, client⟩
        have apart := rest.mp ⟨order, raise, client⟩
        omega
      · intro apart
        obtain ⟨order, raise, client⟩ := rest.mpr (by omega)
        exact ⟨order, .inr many, raise, client⟩
    · apply iff_of_false
      · rintro ⟨-, low | high, -⟩
        · exact below low
        · exact many high
      · omega

/-! ## All timeouts -/

/-- The timeouts end in the right order and no number wraps around if and only
if every line has a number that fits and the lines leave values that are far
enough apart. -/
theorem initConfig_ordered_iff (lines : List Line) :
    Ordered (initConfig lines) ∧ NoWrap lines ↔
      (∀ front line back, lines = front ++ line :: back →
        Fits (readLines front) line) ∧
      Correctable (readLines lines) := by
  have rest := corrections_iff (typed_readLines lines)
  constructor
  · rintro ⟨order, exact⟩
    refine ⟨fun front line back split => ?_,
      rest.mp ⟨order, exact.lower, exact.raise, exact.client⟩⟩
    exact (chkTGlobal_exact_iff line _).mp (exact.line front line back split)
  · rintro ⟨fits, apart⟩
    obtain ⟨order, lower, raise, client⟩ := rest.mpr apart
    refine ⟨order, ⟨fun front line back split => ?_, lower, raise, client⟩⟩
    exact (chkTGlobal_exact_iff line _).mpr (fits front line back split)

/-- The values of a file with a slow serial reader. -/
def slowSerial : List Line := [.serialreadertimeout (ascii "6000")]

/-- A serial reader timeout above the client timeout raises both other timeouts
to the same value. -/
theorem slowSerial_not_ordered :
    ¬ (Ordered (initConfig slowSerial) ∧ NoWrap slowSerial) := by
  rintro ⟨order, -⟩
  exact absurd order.fallback (by decide)

end Oscam.Timeouts
