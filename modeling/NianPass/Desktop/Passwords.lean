import NianPass.Lib.Rejection
import NianPass.Lib.Separated
import NianPass.Lib.Shuffle

/-
  The password generator.

  A source of random words is a tape: what `getRandomValues` writes, one word
  after the other. A generator takes words off it; it may throw, and it does not
  end on a tape that is used up. For every choice of options:

  * it throws exactly on options that `hasValidPasswordOptions` refuses, and
    returns on every tape with enough words below half (`generatePassword_outcome`);
  * what it returns has the length asked for, a character of every selected set
    and no character outside them (`generatePassword_wellFormed`);
  * a password is as likely as each of its rearrangements: on tapes of any length
    both come out equally often (`generatePassword_exchangeable`);
  * every choice of words is as likely as every other, and can be told from the
    passphrase (`generatePassphrase_uniform`).
-/
namespace NianPass.Desktop.Passwords

open Rejection

inductive GenerationError where
  | invalidAlphabetSize
  | passwordLength
  | noCharacterSet
  | invalidPassphraseOptions
  | invalidWordlist
  deriving DecidableEq, Repr

abbrev Generator (α : Type) := Source GenerationError α

/-- `length` is the integer the number is; a number that is no safe integer has none. -/
structure GeneratorOptions where
  length : Option ℤ
  uppercase : Bool
  lowercase : Bool
  digits : Bool
  symbols : Bool
  avoidAmbiguous : Bool
  deriving DecidableEq, Repr

/-- The sets in the order of their keys, each with the option that selects it. -/
def SETS : List ((GeneratorOptions → Bool) × String) := [
  (GeneratorOptions.uppercase, "ABCDEFGHIJKLMNOPQRSTUVWXYZ"),
  (GeneratorOptions.lowercase, "abcdefghijklmnopqrstuvwxyz"),
  (GeneratorOptions.digits, "0123456789"),
  (GeneratorOptions.symbols, "!@#$%^&*()-_=+[]\x7b\x7d;:,.?/~")]

/-- The characters of the class that is replaced by nothing. -/
def ambiguous : List Char := "Il1O0o|`'\"".toList

def allowedCharacters (source : String) (avoidAmbiguous : Bool) : List Char :=
  if avoidAmbiguous then source.toList.filter (· ∉ ambiguous) else source.toList

def secureIndex (upperExclusive : ℕ) : Generator ℕ := fun tape =>
  if upperExclusive = 0 ∨ upperExclusive > 256 then some (.error .invalidAlphabetSize)
  else (draw 256 upperExclusive tape).map .ok

def hasValidPasswordOptions (options : GeneratorOptions) : Bool :=
  match options.length with
  | some length =>
    8 ≤ length && length ≤ 128 &&
      (options.uppercase || options.lowercase || options.digits || options.symbols)
  | none => false

/-- `characters[index] ?? ""`. -/
def charAt (characters : List Char) (index : ℕ) : String :=
  (characters[index]?.map String.singleton).getD ""

def pick (characters : List Char) : Generator String := do
  let index ← secureIndex characters.length
  return charAt characters index

/-- `while (output.length < length)`, with as many rounds as characters are missing. -/
def fill (combined : List Char) : ℕ → List String → Generator (List String)
  | 0, output => return output
  | missing + 1, output => do
    let character ← pick combined
    fill combined missing (output ++ [character])

/-- The loop of exchanges at the positions from `index` down to 1. -/
def exchangeAll : ℕ → List String → Generator (List String)
  | 0, output => return output
  | index + 1, output => do
    let swap ← secureIndex (index + 1 + 1)
    exchangeAll index (Shuffle.exchange output (index + 1) swap)

def selectedSets (options : GeneratorOptions) : List (List Char) :=
  (SETS.filter fun set => set.1 options).map fun set =>
    allowedCharacters set.2 options.avoidAmbiguous

def generatePassword (options : GeneratorOptions) : Generator String := do
  match options.length with
  | none => throw .passwordLength
  | some length =>
    if length < 8 ∨ length > 128 then throw .passwordLength
    let selected := selectedSets options
    if selected.length = 0 then throw .noCharacterSet
    let combined := selected.flatten
    let output ← selected.mapM pick
    let output ← fill combined (length.toNat - output.length) output
    let output ← exchangeAll (output.length - 1) output
    return String.join output

/-! ## What the options allow -/

def GeneratorOptions.Valid (options : GeneratorOptions) (length : ℕ) : Prop :=
  options.length = some (length : ℤ) ∧ 8 ≤ length ∧ length ≤ 128 ∧ selectedSets options ≠ []

variable {options : GeneratorOptions} {length : ℕ}

theorem allowedCharacters_bounds : ∀ set ∈ SETS, ∀ avoid : Bool,
    0 < (allowedCharacters set.2 avoid).length ∧ (allowedCharacters set.2 avoid).length ≤ 26 := by
  decide

theorem selectedSets_length_le : (selectedSets options).length ≤ 4 := by
  rw [selectedSets, List.length_map]
  exact List.length_filter_le _ SETS

theorem selectedSets_bounds {set : List Char} (h : set ∈ selectedSets options) :
    0 < set.length ∧ set.length ≤ 26 := by
  obtain ⟨source, hsource, rfl⟩ := List.mem_map.mp h
  exact allowedCharacters_bounds source (List.mem_filter.mp hsource).1 _

theorem selectedSets_ne_nil_iff : selectedSets options ≠ [] ↔
    (options.uppercase || options.lowercase || options.digits || options.symbols) = true := by
  rw [selectedSets, ne_eq, List.map_eq_nil_iff, List.filter_eq_nil_iff]
  simp only [SETS, List.forall_mem_cons, List.not_mem_nil, false_implies, implies_true, and_true]
  cases options.uppercase <;> cases options.lowercase <;> cases options.digits <;>
    cases options.symbols <;> simp

theorem hasValidPasswordOptions_iff :
    hasValidPasswordOptions options = true ↔ ∃ length, options.Valid length := by
  unfold hasValidPasswordOptions GeneratorOptions.Valid
  cases options.length with
  | none => simp
  | some n =>
    simp only [Bool.and_eq_true, decide_eq_true_eq, Option.some.injEq, selectedSets_ne_nil_iff]
    constructor
    · rintro ⟨⟨hlow, hhigh⟩, hset⟩
      exact ⟨n.toNat, by omega, by omega, by omega, hset⟩
    · rintro ⟨length, rfl, hlow, hhigh, hset⟩
      exact ⟨⟨by omega, by omega⟩, hset⟩

theorem combined_length_le (sets : List (List Char)) (h : ∀ set ∈ sets, set.length ≤ 26) :
    sets.flatten.length ≤ 26 * sets.length := by
  induction sets with
  | nil => simp
  | cons set sets ih =>
    have hset := h set List.mem_cons_self
    have hrest := ih fun s hs => h s (List.mem_cons_of_mem set hs)
    simp only [List.flatten_cons, List.length_append, List.length_cons]
    omega

theorem combined_bounds (h : selectedSets options ≠ []) :
    0 < (selectedSets options).flatten.length ∧ (selectedSets options).flatten.length ≤ 256 := by
  obtain ⟨set, hset⟩ := List.exists_mem_of_ne_nil _ h
  have hpos := (selectedSets_bounds hset).1
  have hle := (List.sublist_flatten_of_mem hset).length_le
  have hhigh := combined_length_le (selectedSets options) fun s hs => (selectedSets_bounds hs).2
  have hfour := @selectedSets_length_le options
  omega

/-! ## The draws of the generator -/

theorem secureIndex_samples {n : ℕ} (hn : 0 < n) (hM : n ≤ 256) :
    Samples 256 (secureIndex n) [n] fun is => is.headD 0 := by
  intro tape
  have hvalid : ¬ (n = 0 ∨ n > 256) := by omega
  simp only [secureIndex, if_neg hvalid, draws, Option.bind_eq_bind]
  cases draw 256 n tape with
  | none => rfl
  | some drawn => rfl

theorem pick_samples {characters : List Char} (hn : 0 < characters.length)
    (hM : characters.length ≤ 256) :
    Samples 256 (pick characters) [characters.length] fun is => charAt characters (is.headD 0) :=
  (secureIndex_samples hn hM).map

/-- One character of each set. -/
def firsts (sets : List (List Char)) (is : List ℕ) : List String := List.zipWith charAt sets is

theorem mapM_pick_samples : ∀ {sets : List (List Char)},
    (∀ set ∈ sets, 0 < set.length ∧ set.length ≤ 256) →
      Samples 256 (sets.mapM pick) (sets.map List.length) (firsts sets)
  | [], _ => samples_pure []
  | set :: sets, h => by
    have hset := h set List.mem_cons_self
    have hsets : ∀ s ∈ sets, 0 < s.length ∧ s.length ≤ 256 :=
      fun s hs => h s (List.mem_cons_of_mem set hs)
    have hdrawable : Drawable 256 [set.length] := by simpa [Drawable] using hset
    have hall : Drawable 256 ((set :: sets).map List.length) := by
      intro n hn
      obtain ⟨s, hs, rfl⟩ := List.mem_map.mp hn
      exact h s hs
    rw [List.mapM_cons]
    simp only [bind_pure_comp]
    refine ((pick_samples hset.1 hset.2).bind hdrawable fun _ _ =>
      (mapM_pick_samples hsets).map).congr hall fun is his => ?_
    cases his with
    | cons _ _ => rfl

/-- Filling up appends a character for each draw. -/
theorem fill_samples {combined : List Char} (hn : 0 < combined.length)
    (hM : combined.length ≤ 256) : ∀ (missing : ℕ) (output : List String),
      Samples 256 (fill combined missing output) (List.replicate missing combined.length)
        fun is => output ++ is.map (charAt combined)
  | 0, output => (samples_pure output).congr (by simp [Drawable]) fun is his => by
      cases his
      simp
  | missing + 1, output => by
    have hdrawable : ∀ k, Drawable 256 (List.replicate k combined.length) := by
      intro k n hk
      rw [List.eq_of_mem_replicate hk]
      exact ⟨hn, hM⟩
    refine ((pick_samples hn hM).bind (hdrawable 1) fun _ _ =>
      fill_samples hn hM missing _).congr (hdrawable (missing + 1)) fun is his => ?_
    cases his with
    | cons _ _ => simp

theorem bounds_drawable : ∀ {k : ℕ}, k < 256 → Drawable 256 (Shuffle.bounds k)
  | 0, _ => by simp [Drawable, Shuffle.bounds]
  | k + 1, hk => by
    intro n hn
    rcases List.mem_cons.mp hn with rfl | hn
    · omega
    · exact bounds_drawable (by omega) n hn

theorem exchangeAll_samples : ∀ {index : ℕ}, index < 256 → ∀ output : List String,
    Samples 256 (exchangeAll index output) (Shuffle.bounds index)
      fun is => Shuffle.shuffle index is output
  | 0, _, output => samples_pure output
  | index + 1, hindex, output => by
    have hdrawable := bounds_drawable hindex
    refine ((secureIndex_samples (by omega) (by omega)).bind
      (fun n hn => hdrawable n (by simp at hn; simp [Shuffle.bounds, hn])) fun _ _ =>
        exchangeAll_samples (by omega) _).congr hdrawable fun is his => ?_
    cases his with
    | cons _ _ => simp [Shuffle.shuffle]

/-- The draws for the characters: one in each set, the others among all characters. -/
def characterBounds (options : GeneratorOptions) (length : ℕ) : List ℕ :=
  let sets := selectedSets options
  sets.map List.length ++ List.replicate (length - sets.length) sets.flatten.length

def passwordBounds (options : GeneratorOptions) (length : ℕ) : List ℕ :=
  characterBounds options length ++ Shuffle.bounds (length - 1)

/-- The characters in the order in which they are drawn. -/
def drawnCharacters (options : GeneratorOptions) (is : List ℕ) : List String :=
  let sets := selectedSets options
  firsts sets (is.take sets.length) ++ (is.drop sets.length).map (charAt sets.flatten)

def passwordOf (options : GeneratorOptions) (length : ℕ) (is : List ℕ) : String :=
  String.join (Shuffle.shuffle (length - 1) (is.drop length)
    (drawnCharacters options (is.take length)))

theorem passwordBounds_drawable (h : options.Valid length) :
    Drawable 256 (passwordBounds options length) := by
  obtain ⟨-, hlow, hhigh, hsets⟩ := h
  intro n hn
  simp only [passwordBounds, characterBounds, List.mem_append, List.mem_map] at hn
  rcases hn with (⟨set, hset, rfl⟩ | hn) | hn
  · have hbounds := selectedSets_bounds hset
    omega
  · rw [List.eq_of_mem_replicate hn]
    exact combined_bounds hsets
  · exact bounds_drawable (by omega) n hn

theorem shuffleBounds_length : ∀ k, (Shuffle.bounds k).length = k
  | 0 => rfl
  | k + 1 => congrArg (· + 1) (shuffleBounds_length k)

theorem firsts_length {sets : List (List Char)} {is : List ℕ} (h : is.length = sets.length) :
    (firsts sets is).length = sets.length := by
  simp [firsts, h]

/-- What follows once a character of each set is there. -/
theorem finish_samples {combined : List Char} {output : List String}
    (hn : 0 < combined.length) (hM : combined.length ≤ 256) (hle : output.length ≤ length)
    (hlow : 0 < length) (hhigh : length ≤ 256) :
    Samples 256 (do
        let output ← fill combined (length - output.length) output
        let output ← exchangeAll (output.length - 1) output
        return String.join output)
      (List.replicate (length - output.length) combined.length ++ Shuffle.bounds (length - 1))
      fun is => String.join (Shuffle.shuffle (length - 1) (is.drop (length - output.length))
        (output ++ (is.take (length - output.length)).map (charAt combined))) := by
  have hdrawable : Drawable 256 (List.replicate (length - output.length) combined.length) := by
    intro n hmem
    rw [List.eq_of_mem_replicate hmem]
    exact ⟨hn, hM⟩
  have hall : Drawable 256 (List.replicate (length - output.length) combined.length ++
      Shuffle.bounds (length - 1)) := by
    intro n hmem
    rcases List.mem_append.mp hmem with hmem | hmem
    · exact hdrawable n hmem
    · exact bounds_drawable (by omega) n hmem
  refine ((fill_samples hn hM (length - output.length) output).bind hdrawable
    (g := fun is js => String.join (Shuffle.shuffle (length - 1) js
      (output ++ is.map (charAt combined)))) fun is his => ?_).congr hall fun is his => ?_
  · have hlength := his.length
    rw [List.length_replicate] at hlength
    have hcount : (output ++ is.map (charAt combined)).length - 1 = length - 1 := by
      rw [List.length_append, List.length_map, hlength]
      omega
    simp only [hcount, bind_pure_comp]
    exact (exchangeAll_samples (by omega) _).map
  · simp only [List.length_replicate]

theorem generatePassword_samples (h : options.Valid length) :
    Samples 256 (generatePassword options) (passwordBounds options length)
      (passwordOf options length) := by
  have hdrawable := passwordBounds_drawable h
  rw [passwordBounds, characterBounds, List.append_assoc] at hdrawable ⊢
  obtain ⟨hlength, hlow, hhigh, hsets⟩ := h
  have hfour := @selectedSets_length_le options
  have hcombined := combined_bounds hsets
  have hnot : ¬ ((length : ℤ) < 8 ∨ (length : ℤ) > 128) := by omega
  have hnonempty : ¬ (selectedSets options).length = 0 := by simpa using hsets
  unfold generatePassword
  simp only [hlength, if_neg hnot, if_neg hnonempty, Int.toNat_natCast]
  have hbound : ∀ set ∈ selectedSets options, 0 < set.length ∧ set.length ≤ 256 := by
    intro set hset
    have hbounds := selectedSets_bounds hset
    omega
  refine ((mapM_pick_samples hbound).bind
    (fun n hn => hdrawable n (List.mem_append_left _ hn))
    (g := fun is js => String.join (Shuffle.shuffle (length - 1)
      (js.drop (length - (selectedSets options).length))
      (firsts (selectedSets options) is ++ (js.take (length - (selectedSets options).length)).map
        (charAt (selectedSets options).flatten)))) fun is his => ?_).congr hdrawable
    fun is his => ?_
  · have hcount : (firsts (selectedSets options) is).length = (selectedSets options).length :=
      firsts_length (by simpa using his.length)
    have hle : (firsts (selectedSets options) is).length ≤ length := by omega
    have hfinish := finish_samples hcombined.1 hcombined.2 hle (by omega) (by omega)
    rw [hcount] at hfinish
    simpa only [hcount] using hfinish
  · have hsum :
        (selectedSets options).length + (length - (selectedSets options).length) = length := by
      omega
    have hmin : min (selectedSets options).length length = (selectedSets options).length := by omega
    simp only [passwordOf, drawnCharacters, List.length_map, List.drop_drop, hsum, List.take_take,
      hmin, List.drop_take]

/-! ## The characters that are drawn -/

theorem charAt_of_lt {characters : List Char} {index : ℕ} (h : index < characters.length) :
    charAt characters index = String.singleton characters[index] := by
  rw [charAt, List.getElem?_eq_getElem h]
  rfl

theorem join_singletons (chars : List Char) :
    String.join (chars.map String.singleton) = String.ofList chars := by
  induction chars with
  | nil => rfl
  | cons c chars ih =>
    rw [List.map_cons, String.join_cons, ih, ← String.toList_inj]
    simp

/-- What a character of a password may be. -/
def Offered (sets : List (List Char)) (c : Char) : Prop := ∃ set ∈ sets, c ∈ set

theorem exists_firsts : ∀ {sets : List (List Char)} {is : List ℕ},
    Allowed is (sets.map List.length) → ∃ chars : List Char,
      firsts sets is = chars.map String.singleton ∧ chars.length = sets.length ∧
        (∀ set ∈ sets, ∃ c ∈ chars, c ∈ set) ∧ ∀ c ∈ chars, Offered sets c
  | [], is, h => by
    cases h
    exact ⟨[], rfl, rfl, by simp, by simp⟩
  | set :: sets, is, h => by
    cases h with
    | @cons i _ is _ hi h =>
      obtain ⟨chars, hfirsts, hlength, hevery, hoffered⟩ := exists_firsts h
      refine ⟨set[i] :: chars, ?_, congrArg (· + 1) hlength, ?_, ?_⟩
      · simp only [firsts, List.zipWith_cons_cons, List.map_cons, charAt_of_lt hi]
        exact congrArg _ hfirsts
      · intro other hother
        rcases List.mem_cons.mp hother with rfl | hother
        · exact ⟨other[i], List.mem_cons_self, List.getElem_mem hi⟩
        · obtain ⟨c, hc, hin⟩ := hevery other hother
          exact ⟨c, List.mem_cons_of_mem _ hc, hin⟩
      · intro c hc
        rcases List.mem_cons.mp hc with rfl | hc
        · exact ⟨set, List.mem_cons_self, List.getElem_mem hi⟩
        · obtain ⟨other, hother, hin⟩ := hoffered c hc
          exact ⟨other, List.mem_cons_of_mem _ hother, hin⟩

theorem exists_others {combined : List Char} : ∀ {k : ℕ} {is : List ℕ},
    Allowed is (List.replicate k combined.length) → ∃ chars : List Char,
      is.map (charAt combined) = chars.map String.singleton ∧ chars.length = k ∧
        ∀ c ∈ chars, c ∈ combined
  | 0, is, h => by
    cases h
    exact ⟨[], rfl, rfl, by simp⟩
  | k + 1, is, h => by
    cases h with
    | @cons i _ is _ hi h =>
      obtain ⟨chars, hchars, hlength, hin⟩ := exists_others h
      refine ⟨combined[i] :: chars, ?_, congrArg (· + 1) hlength, ?_⟩
      · simp only [List.map_cons, charAt_of_lt hi, hchars]
      · intro c hc
        rcases List.mem_cons.mp hc with rfl | hc
        · exact List.getElem_mem hi
        · exact hin c hc

theorem characterBounds_length (h : options.Valid length) :
    (characterBounds options length).length = length := by
  have hfour := @selectedSets_length_le options
  have hlow := h.2.1
  simp only [characterBounds, List.length_append, List.length_map, List.length_replicate]
  omega

theorem exists_drawn {is : List ℕ} (h : options.Valid length)
    (ha : Allowed is (characterBounds options length)) : ∃ chars : List Char,
      drawnCharacters options is = chars.map String.singleton ∧ chars.length = length ∧
        (∀ set ∈ selectedSets options, ∃ c ∈ chars, c ∈ set) ∧
        ∀ c ∈ chars, Offered (selectedSets options) c := by
  have hfour := @selectedSets_length_le options
  have hlow := h.2.1
  have htake := List.forall₂_take_append _ _ _ ha
  have hdrop := List.forall₂_drop_append _ _ _ ha
  rw [List.length_map] at htake hdrop
  obtain ⟨front, hfront, hcount, hevery, hoffered⟩ := exists_firsts htake
  obtain ⟨back, hback, hcount', hin⟩ := exists_others hdrop
  refine ⟨front ++ back, ?_, ?_, ?_, ?_⟩
  · rw [drawnCharacters, hfront, hback, List.map_append]
  · rw [List.length_append, hcount, hcount']
    omega
  · intro set hset
    obtain ⟨c, hc, hmem⟩ := hevery set hset
    exact ⟨c, List.mem_append_left _ hc, hmem⟩
  · intro c hc
    rcases List.mem_append.mp hc with hc | hc
    · exact hoffered c hc
    · obtain ⟨set, hset, hmem⟩ := List.mem_flatten.mp (hin c hc)
      exact ⟨set, hset, hmem⟩

/-- A password is its drawn characters, shuffled. -/
theorem exists_passwordOf {is : List ℕ} (h : options.Valid length)
    (ha : Allowed is (passwordBounds options length)) : ∃ chars : List Char,
      drawnCharacters options (is.take length) = chars.map String.singleton ∧
        chars.length = length ∧ (∀ set ∈ selectedSets options, ∃ c ∈ chars, c ∈ set) ∧
        (∀ c ∈ chars, Offered (selectedSets options) c) ∧
        Allowed (is.drop length) (Shuffle.bounds (length - 1)) ∧
        passwordOf options length is =
          String.ofList (Shuffle.shuffle (length - 1) (is.drop length) chars) := by
  have htake := List.forall₂_take_append _ _ _ ha
  have hdrop := List.forall₂_drop_append _ _ _ ha
  rw [characterBounds_length h] at htake hdrop
  obtain ⟨chars, hdrawn, hcount, hevery, hoffered⟩ := exists_drawn h htake
  refine ⟨chars, hdrawn, hcount, hevery, hoffered, hdrop, ?_⟩
  have hlow := h.2.1
  rw [passwordOf, hdrawn, Shuffle.shuffle_map _ hdrop (by omega), join_singletons]

/-! ## Results -/

theorem generatePassword_refused (h : hasValidPasswordOptions options = false) (tape : List ℕ) :
    ∃ e, generatePassword options tape = some (.error e) := by
  unfold generatePassword
  cases hlength : options.length with
  | none => exact ⟨.passwordLength, rfl⟩
  | some n =>
    dsimp only
    by_cases hrange : n < 8 ∨ n > 128
    · rw [if_pos hrange]
      exact ⟨.passwordLength, rfl⟩
    · have hnone : (selectedSets options).length = 0 := by
        by_contra hsets
        have hvalid : hasValidPasswordOptions options = true :=
          hasValidPasswordOptions_iff.mpr ⟨n.toNat, by rw [hlength]; congr 1; omega, by omega,
            by omega, by simpa using hsets⟩
        rw [h] at hvalid
        cases hvalid
      rw [if_neg hrange, if_pos hnone]
      exact ⟨.noCharacterSet, rfl⟩

theorem passwordBounds_length_le (h : options.Valid length) :
    (passwordBounds options length).length ≤ 255 := by
  have hhigh := h.2.2.1
  rw [passwordBounds, List.length_append, characterBounds_length h, shuffleBounds_length]
  omega

theorem not_ambiguous (h : options.avoidAmbiguous = true) {c : Char}
    (hc : Offered (selectedSets options) c) : c ∉ ambiguous := by
  obtain ⟨set, hset, hmem⟩ := hc
  obtain ⟨source, -, rfl⟩ := List.mem_map.mp hset
  rw [allowedCharacters, if_pos h] at hmem
  exact of_decide_eq_true (List.mem_filter.mp hmem).2

/-- Every way in which generating a password comes out. -/
theorem generatePassword_outcome (options : GeneratorOptions) (tape : List ℕ) :
    match generatePassword options tape with
    | none => hasValidPasswordOptions options = true ∧ (tape.filter (2 * · < 256)).length < 255
    | some (.error _) => hasValidPasswordOptions options = false
    | some (.ok (password, _)) =>
      hasValidPasswordOptions options = true ∧
      options.length = some (password.toList.length : ℤ) ∧
      (∀ set ∈ selectedSets options, ∃ c ∈ password.toList, c ∈ set) ∧
      (∀ c ∈ password.toList, ∃ set ∈ selectedSets options, c ∈ set) ∧
      (options.avoidAmbiguous = true → ∀ c ∈ password.toList, c ∉ ambiguous) := by
  by_cases hvalid : hasValidPasswordOptions options = true
  · obtain ⟨length, h⟩ := hasValidPasswordOptions_iff.mp hvalid
    have hdrawable := passwordBounds_drawable h
    have hbounds := passwordBounds_length_le h
    rw [generatePassword_samples h tape]
    cases hdrawn : draws 256 (passwordBounds options length) tape with
    | none =>
      refine ⟨hvalid, ?_⟩
      by_contra hmany
      have henough : (passwordBounds options length).length ≤
          (tape.filter (2 * · < 256)).length := by
        omega
      obtain ⟨is, rest, hsome⟩ := draws_isSome hdrawable henough
      rw [hdrawn] at hsome
      cases hsome
    | some drawn =>
      obtain ⟨is, rest⟩ := drawn
      obtain ⟨chars, -, hcount, hevery, hoffered, hallowed, hpassword⟩ :=
        exists_passwordOf h (draws_allowed hdrawable hdrawn)
      have hlow := h.2.1
      have hshort : length - 1 < chars.length := by omega
      have hperm := Shuffle.shuffle_perm hallowed hshort
      have hlist : (passwordOf options length is).toList =
          Shuffle.shuffle (length - 1) (is.drop length) chars := by
        rw [hpassword, String.toList_ofList]
      simp only [Option.map_some]
      refine ⟨hvalid, ?_, ?_, ?_, ?_⟩
      · rw [hlist, hperm.length_eq, hcount]
        exact h.1
      · intro set hset
        obtain ⟨c, hc, hmem⟩ := hevery set hset
        exact ⟨c, hlist ▸ hperm.mem_iff.mpr hc, hmem⟩
      · intro c hc
        exact hoffered c (hperm.mem_iff.mp (hlist ▸ hc))
      · intro havoid c hc
        exact not_ambiguous havoid (hoffered c (hperm.mem_iff.mp (hlist ▸ hc)))
  · rw [Bool.not_eq_true] at hvalid
    obtain ⟨e, he⟩ := generatePassword_refused hvalid tape
    rw [he]
    exact hvalid

/-- The draws of a rearranged password: the characters are the same, the exchanges others. -/
def rearranged (length : ℕ) (σ : Equiv.Perm ℕ) (is : List ℕ) : List ℕ :=
  is.take length ++ Shuffle.choices (length - 1) (Shuffle.order (length - 1) (is.drop length) * σ)

theorem rearranged_spec {is : List ℕ} {σ : Equiv.Perm ℕ} {p q : String} (h : options.Valid length)
    (ha : Allowed is (passwordBounds options length)) (hfix : ∀ i, length ≤ i → σ i = i)
    (hget : ∀ i : ℕ, q.toList[i]? = p.toList[σ i]?) (hp : passwordOf options length is = p) :
    Allowed (rearranged length σ is) (passwordBounds options length) ∧
      passwordOf options length (rearranged length σ is) = q ∧
      rearranged length σ⁻¹ (rearranged length σ is) = is := by
  have hlow := h.2.1
  have htake := List.forall₂_take_append _ _ _ ha
  rw [characterBounds_length h] at htake
  obtain ⟨chars, hdrawn, hcount, -, -, hallowed, hpassword⟩ := exists_passwordOf h ha
  have hwithin : Shuffle.Within (length - 1) (Shuffle.order (length - 1) (is.drop length) * σ) :=
    (Shuffle.order_within hallowed).mul fun i hi => hfix i (by omega)
  obtain ⟨hchoices, horder⟩ := Shuffle.order_choices hwithin
  have hlength : (is.take length).length = length := by
    rw [htake.length_eq, characterBounds_length h]
  have hnew : Allowed (rearranged length σ is) (passwordBounds options length) :=
    List.rel_append htake hchoices
  have htake' : (rearranged length σ is).take length = is.take length := by
    rw [rearranged, List.take_left' hlength]
  have hdrop' : (rearranged length σ is).drop length =
      Shuffle.choices (length - 1) (Shuffle.order (length - 1) (is.drop length) * σ) := by
    rw [rearranged, List.drop_left' hlength]
  refine ⟨hnew, ?_, ?_⟩
  · rw [passwordOf, htake', hdrop', hdrawn, Shuffle.shuffle_map _ hchoices (by omega),
      join_singletons, ← String.toList_inj, String.toList_ofList]
    apply List.ext_getElem?
    intro i
    rw [hget, ← hp, hpassword, String.toList_ofList, Shuffle.shuffle_getElem? hchoices (by omega),
      Shuffle.shuffle_getElem? hallowed (by omega), horder, Equiv.Perm.mul_apply]
  · rw [rearranged, htake', hdrop', horder, mul_assoc, mul_inv_cancel, mul_one,
      Shuffle.choices_order hallowed, List.take_append_drop]

/-- A string of another length than the one asked for never comes out. -/
theorem ways_of_length_ne {p : String} (h : options.length ≠ some (p.toList.length : ℤ)) (N : ℕ) :
    ways 256 N (generatePassword options) p = 0 := by
  apply ways_eq_zero
  intro tape hmade
  have houtcome := generatePassword_outcome options tape
  unfold made at hmade
  split at hmade
  case h_1 password heq =>
    cases hmade
    rw [heq] at houtcome
    exact h houtcome.2.1
  case h_2 => cases hmade

/-- A password comes out on as many tapes of `N` words as any rearrangement of it. -/
theorem generatePassword_exchangeable (options : GeneratorOptions) {p q : String}
    (h : p.toList.Perm q.toList) (N : ℕ) :
    ways 256 N (generatePassword options) p = ways 256 N (generatePassword options) q := by
  by_cases hcount : options.length = some (p.toList.length : ℤ)
  · by_cases hvalid : hasValidPasswordOptions options = true
    · obtain ⟨length, hoptions⟩ := hasValidPasswordOptions_iff.mp hvalid
      have hlength : p.toList.length = length := by
        have heq := hoptions.1.symm.trans hcount
        rw [Option.some.injEq] at heq
        omega
      obtain ⟨σ, hfix, hget⟩ := Shuffle.exists_order h
      rw [hlength] at hfix
      have hfix' : ∀ i, length ≤ i → σ⁻¹ i = i := fun i hi => by
        rw [Equiv.Perm.inv_eq_iff_eq, hfix i hi]
      have hget' : ∀ i : ℕ, p.toList[i]? = q.toList[σ⁻¹ i]? := fun i => by
        rw [hget, ← Equiv.Perm.mul_apply, mul_inv_cancel, Equiv.Perm.one_apply]
      refine (generatePassword_samples hoptions).ways_eq (passwordBounds_drawable hoptions)
        (rearranged length σ) (rearranged length σ⁻¹) (fun is ha hp => ?_) (fun is ha hq => ?_) N
      · exact rearranged_spec hoptions ha hfix hget hp
      · simpa using rearranged_spec hoptions ha hfix' hget' hq
    · rw [Bool.not_eq_true] at hvalid
      have hnever : ∀ tape (r : String), made (generatePassword options) tape ≠ some r := by
        intro tape r hmade
        obtain ⟨e, he⟩ := generatePassword_refused hvalid tape
        rw [made, he] at hmade
        cases hmade
      rw [ways_eq_zero fun tape => hnever tape p, ways_eq_zero fun tape => hnever tape q]
  · rw [ways_of_length_ne hcount, ways_of_length_ne (h.length_eq ▸ hcount)]

theorem generatePassword_exchangeable_pair :
    ways 256 15 (generatePassword ⟨some 8, true, true, true, true, false⟩) "aB3$efgh" =
      ways 256 15 (generatePassword ⟨some 8, true, true, true, true, false⟩) "B3$efgha" :=
  generatePassword_exchangeable _ (by decide) 15

/-! ## Passphrases -/

structure PassphraseOptions where
  words : Option ℤ
  separator : String
  capitalize : Bool
  deriving DecidableEq, Repr

/-- `/^[a-z]+$/`. -/
def isWord (word : String) : Bool :=
  !word.toList.isEmpty && word.toList.all fun c => 'a' ≤ c && c ≤ 'z'

def capitalized (word : String) : String :=
  match word.toList with
  | [] => word
  | first :: rest => String.ofList (first.toUpper :: rest)

/-- The samples from the cutoff on are drawn again. -/
def wordIndex (words : List String) : Generator ℕ := fun tape =>
  (draw 65536 words.length tape).map .ok

def takeWords (words : List String) (capitalize : Bool) : ℕ → List String → Generator (List String)
  | 0, result => return result
  | missing + 1, result => do
    let index ← wordIndex words
    match words[index]? with
    | none => throw .invalidWordlist
    | some word =>
      if !isWord word then throw .invalidWordlist
      takeWords words capitalize missing (result ++ [if capitalize then capitalized word else word])

/-- `words` is the bundled list. -/
def generatePassphrase (words : List String) (options : PassphraseOptions) : Generator String := do
  match options.words with
  | none => throw .invalidPassphraseOptions
  | some count =>
    if count < 6 ∨ count > 12 ∨ options.separator ∉ [" ", "-"] ∨ words.length ≠ 7772 then
      throw .invalidPassphraseOptions
    let result ← takeWords words options.capitalize count.toNat []
    return options.separator.intercalate result

/-- The passphrase of some words. -/
def passphraseOf (options : PassphraseOptions) (chosen : List String) : String :=
  options.separator.intercalate
    (chosen.map fun word => if options.capitalize then capitalized word else word)

section Passphrases
variable {words : List String} {phrase : PassphraseOptions}

/-- The words at the drawn indices. -/
def wordsAt (words : List String) (is : List ℕ) : List String := is.map fun i => words[i]?.getD ""

theorem takeWords_samples (hwords : ∀ word ∈ words, isWord word = true) (hn : 0 < words.length)
    (hM : words.length ≤ 65536) (capitalize : Bool) : ∀ (missing : ℕ) (result : List String),
      Samples 65536 (takeWords words capitalize missing result)
        (List.replicate missing words.length) fun is =>
          result ++ (wordsAt words is).map fun word => if capitalize then capitalized word else word
  | 0, result => (samples_pure result).congr (by simp [Drawable]) fun is his => by
      cases his
      simp [wordsAt]
  | missing + 1, result => by
    have hdrawable : ∀ k, Drawable 65536 (List.replicate k words.length) := by
      intro k n hk
      rw [List.eq_of_mem_replicate hk]
      exact ⟨hn, hM⟩
    have hindex : Samples 65536 (wordIndex words) [words.length] fun is => is.headD 0 := by
      intro tape
      simp only [wordIndex, draws, Option.bind_eq_bind]
      cases draw 65536 words.length tape with
      | none => rfl
      | some drawn => rfl
    refine (hindex.bind (hdrawable 1)
      (g := fun is js => result ++ (wordsAt words (is ++ js)).map fun word =>
        if capitalize then capitalized word else word) fun is his => ?_).congr
      (hdrawable (missing + 1)) fun is his => ?_
    · cases his with
      | @cons i _ is _ hi his =>
        cases his
        have hword := hwords _ (List.getElem_mem hi)
        have hnext := takeWords_samples hwords hn hM capitalize missing
          (result ++ [if capitalize then capitalized words[i] else words[i]])
        simp only [List.headD_cons, List.getElem?_eq_getElem hi, hword, Bool.not_true,
          Bool.false_eq_true, if_false]
        simpa [wordsAt, List.getElem?_eq_getElem hi] using hnext
    · cases his with
      | cons _ _ => simp

def PassphraseOptions.Valid (phrase : PassphraseOptions) (words : List String) (count : ℕ) : Prop :=
  phrase.words = some (count : ℤ) ∧ 6 ≤ count ∧ count ≤ 12 ∧ phrase.separator ∈ [" ", "-"] ∧
    words.length = 7772

theorem generatePassphrase_samples {count : ℕ} (hwords : ∀ word ∈ words, isWord word = true)
    (h : phrase.Valid words count) :
    Samples 65536 (generatePassphrase words phrase) (List.replicate count words.length)
      fun is => passphraseOf phrase (wordsAt words is) := by
  obtain ⟨hcount, hlow, hhigh, hseparator, hlength⟩ := h
  have hvalid : ¬ ((count : ℤ) < 6 ∨ (count : ℤ) > 12 ∨ phrase.separator ∉ [" ", "-"] ∨
      words.length ≠ 7772) := by
    simp only [hseparator, hlength, not_true_eq_false, ne_eq, or_false]
    omega
  unfold generatePassphrase
  simp only [hcount, if_neg hvalid, Int.toNat_natCast, bind_pure_comp]
  simpa [passphraseOf] using (takeWords_samples hwords (by omega) (by omega) phrase.capitalize
    count []).map (g := fun result => phrase.separator.intercalate result)

def letters : List Char := "abcdefghijklmnopqrstuvwxyz".toList

theorem mem_letters {c : Char} (h : ('a' ≤ c && c ≤ 'z') = true) : c ∈ letters := by
  simp only [Bool.and_eq_true, decide_eq_true_eq, Char.le_def, UInt32.le_iff_toNat_le] at h
  have hnat : 97 ≤ c.toNat ∧ c.toNat ≤ 122 := h
  have hc : c = Char.ofNat c.toNat := (Char.ofNat_toNat c).symm
  obtain ⟨hlow, hhigh⟩ := hnat
  rw [hc]
  generalize c.toNat = n at hlow hhigh
  interval_cases n <;> decide

theorem isWord_iff {word : String} :
    isWord word = true ↔ word.toList ≠ [] ∧ ∀ c ∈ word.toList, ('a' ≤ c && c ≤ 'z') = true := by
  simp [isWord]

/-- No letter, capital or not, separates words. -/
theorem letter_ne_separator : ∀ c ∈ letters, ∀ sep ∈ [' ', '-'],
    (c == sep) = false ∧ (c.toUpper == sep) = false := by
  have hall : (letters.all fun c => [' ', '-'].all fun sep =>
      !(c == sep) && !(c.toUpper == sep)) = true := by
    decide
  intro c hc sep hsep
  have hone := List.all_eq_true.mp (List.all_eq_true.mp hall c hc) sep hsep
  simpa using hone

theorem toUpper_injective : ∀ c ∈ letters, ∀ d ∈ letters, c.toUpper = d.toUpper → c = d := by
  have hall : (letters.all fun c => letters.all fun d =>
      !(c.toUpper == d.toUpper) || c == d) = true := by
    decide +kernel
  intro c hc d hd heq
  have hone := List.all_eq_true.mp (List.all_eq_true.mp hall c hc) d hd
  simpa [heq] using hone

theorem capitalized_clean {word : String} (h : isWord word = true) {sep : Char}
    (hsep : sep ∈ [' ', '-']) (capitalize : Bool) :
    ∀ c ∈ (if capitalize then capitalized word else word).toList, (c == sep) = false := by
  obtain ⟨-, hletters⟩ := isWord_iff.mp h
  have hplain : ∀ c ∈ word.toList, (c == sep) = false :=
    fun c hc => (letter_ne_separator c (mem_letters (hletters c hc)) sep hsep).1
  cases capitalize with
  | false => exact hplain
  | true =>
    rw [if_pos rfl, capitalized]
    cases hword : word.toList with
    | nil => simpa only [hword] using hplain
    | cons first rest =>
      simp only [String.toList_ofList]
      rw [hword] at hletters hplain
      intro c hc
      rcases List.mem_cons.mp hc with rfl | hc
      · exact (letter_ne_separator first (mem_letters (hletters first List.mem_cons_self))
          sep hsep).2
      · exact hplain c (List.mem_cons_of_mem first hc)

theorem capitalized_injective {w w' : String} (h : isWord w = true) (h' : isWord w' = true)
    (heq : capitalized w = capitalized w') : w = w' := by
  obtain ⟨hne, hletters⟩ := isWord_iff.mp h
  obtain ⟨hne', hletters'⟩ := isWord_iff.mp h'
  rw [capitalized, capitalized] at heq
  cases hw : w.toList with
  | nil => exact absurd hw hne
  | cons first rest =>
    cases hw' : w'.toList with
    | nil => exact absurd hw' hne'
    | cons first' rest' =>
      rw [hw] at heq hletters
      rw [hw'] at heq hletters'
      simp only [String.ofList_inj, List.cons.injEq] at heq
      have hfirst := toUpper_injective first (mem_letters (hletters first List.mem_cons_self))
        first' (mem_letters (hletters' first' List.mem_cons_self)) heq.1
      rw [← String.toList_inj, hw, hw', hfirst, heq.2]

theorem eq_of_map_eq {α β : Type} {f : α → β} : ∀ {xs ys : List α},
    (∀ x ∈ xs, ∀ y ∈ ys, f x = f y → x = y) → xs.map f = ys.map f → xs = ys
  | [], [], _, _ => rfl
  | [], _ :: _, _, h => by simp at h
  | _ :: _, [], _, h => by simp at h
  | x :: xs, y :: ys, hinj, h => by
    simp only [List.map_cons, List.cons.injEq] at h
    have hhead := hinj x List.mem_cons_self y List.mem_cons_self h.1
    have htail := eq_of_map_eq (fun a ha b hb =>
      hinj a (List.mem_cons_of_mem x ha) b (List.mem_cons_of_mem y hb)) h.2
    rw [hhead, htail]

theorem passphraseOf_injective {ws ws' : List String} (hseparator : phrase.separator ∈ [" ", "-"])
    (hne : ws ≠ []) (hne' : ws' ≠ []) (h : ∀ w ∈ ws, isWord w = true)
    (h' : ∀ w ∈ ws', isWord w = true) (heq : passphraseOf phrase ws = passphraseOf phrase ws') :
    ws = ws' := by
  -- the separator is one character
  obtain ⟨sep, hsep, hlist⟩ : ∃ sep ∈ [' ', '-'], phrase.separator.toList = [sep] := by
    rcases List.mem_cons.mp hseparator with hspace | hseparator
    · exact ⟨' ', by simp, by rw [hspace]; rfl⟩
    · rw [List.mem_singleton] at hseparator
      exact ⟨'-', by simp, by rw [hseparator]; rfl⟩
  let cased (word : String) : String := if phrase.capitalize then capitalized word else word
  have hread : ∀ us : List String, us ≠ [] → (∀ u ∈ us, isWord u = true) →
      (passphraseOf phrase us).toList.splitOnP (· == sep) = us.map fun u => (cased u).toList := by
    intro us hus hword
    rw [passphraseOf, String.toList_intercalate, hlist, List.map_map]
    have hnonempty : us.map (String.toList ∘ cased) ≠ [] := by simpa using hus
    refine (Separated.splitOnP_intercalate_iff (p := (· == sep)) (beq_self_eq_true sep)
      hnonempty).mpr ?_
    intro l hl
    obtain ⟨u, hu, rfl⟩ := List.mem_map.mp hl
    exact capitalized_clean (hword u hu) hsep phrase.capitalize
  have hmap : (ws.map fun u => (cased u).toList) = ws'.map fun u => (cased u).toList := by
    rw [← hread ws hne h, ← hread ws' hne' h', heq]
  refine eq_of_map_eq (fun w hw w' hw' hcased => ?_) hmap
  rw [String.toList_inj] at hcased
  by_cases hcapital : phrase.capitalize = true
  · simp only [cased, if_pos hcapital] at hcased
    exact capitalized_injective (h w hw) (h' w' hw') hcased
  · simpa only [cased, if_neg hcapital] using hcased

/-- The draws of some words. -/
def indicesOf (words chosen : List String) : List ℕ := chosen.map words.idxOf

theorem indicesOf_spec {chosen : List String} (h : ∀ w ∈ chosen, w ∈ words) :
    Allowed (indicesOf words chosen) (List.replicate chosen.length words.length) ∧
      wordsAt words (indicesOf words chosen) = chosen := by
  induction chosen with
  | nil => exact ⟨.nil, rfl⟩
  | cons w chosen ih =>
    obtain ⟨hallowed, hback⟩ := ih fun v hv => h v (List.mem_cons_of_mem w hv)
    have hlt : words.idxOf w < words.length := List.idxOf_lt_length_iff.mpr (h w List.mem_cons_self)
    refine ⟨.cons hlt hallowed, ?_⟩
    simp only [indicesOf, wordsAt, List.map_cons, List.getElem?_eq_getElem hlt,
      List.getElem_idxOf, Option.getD_some]
    exact congrArg _ hback

theorem wordsAt_spec (hnodup : words.Nodup) : ∀ {count : ℕ} {is : List ℕ},
    Allowed is (List.replicate count words.length) →
      (wordsAt words is).length = count ∧ (∀ w ∈ wordsAt words is, w ∈ words) ∧
        indicesOf words (wordsAt words is) = is
  | 0, is, h => by
    cases h
    exact ⟨rfl, by simp [wordsAt], rfl⟩
  | count + 1, is, h => by
    cases h with
    | @cons i _ is _ hi h =>
      obtain ⟨hlength, hmem, hback⟩ := wordsAt_spec hnodup h
      have hhead : words[i]?.getD "" = words[i] := by
        rw [List.getElem?_eq_getElem hi, Option.getD_some]
      refine ⟨congrArg (· + 1) hlength, ?_, ?_⟩
      · intro w hw
        rcases List.mem_cons.mp hw with rfl | hw
        · show words[i]?.getD "" ∈ words
          rw [hhead]
          exact List.getElem_mem hi
        · exact hmem w hw
      · show words.idxOf (words[i]?.getD "") :: indicesOf words (wordsAt words is) = i :: is
        rw [hhead, hback, hnodup.idxOf_getElem]

/-- Every choice of words can be told from its passphrase, and comes out on as many tapes of `N`
words of 16 bits as every other. -/
theorem generatePassphrase_uniform (hwords : ∀ word ∈ words, isWord word = true)
    (hnodup : words.Nodup) {count : ℕ} (h : phrase.Valid words count) {ws ws' : List String}
    (hws : ws.length = count ∧ ∀ w ∈ ws, w ∈ words)
    (hws' : ws'.length = count ∧ ∀ w ∈ ws', w ∈ words) :
    (passphraseOf phrase ws = passphraseOf phrase ws' → ws = ws') ∧
      ∀ N, ways 65536 N (generatePassphrase words phrase) (passphraseOf phrase ws) =
        ways 65536 N (generatePassphrase words phrase) (passphraseOf phrase ws') := by
  have hdrawable : Drawable 65536 (List.replicate count words.length) := by
    intro n hn
    rw [List.eq_of_mem_replicate hn, h.2.2.2.2]
    decide
  have hne : ∀ us : List String, us.length = count → us ≠ [] := by
    intro us hlength hnil
    have hlow := h.2.1
    rw [hnil, List.length_nil] at hlength
    omega
  have htold : ∀ {us vs : List String}, (us.length = count ∧ ∀ w ∈ us, w ∈ words) →
      (vs.length = count ∧ ∀ w ∈ vs, w ∈ words) →
        passphraseOf phrase us = passphraseOf phrase vs → us = vs :=
    fun hus hvs => passphraseOf_injective h.2.2.2.1 (hne _ hus.1) (hne _ hvs.1)
      (fun w hw => hwords w (hus.2 w hw)) fun w hw => hwords w (hvs.2 w hw)
  refine ⟨htold hws hws', fun N => ?_⟩
  have hdraws : ∀ {us vs : List String}, (us.length = count ∧ ∀ w ∈ us, w ∈ words) →
      (vs.length = count ∧ ∀ w ∈ vs, w ∈ words) → ∀ is,
        Allowed is (List.replicate count words.length) →
          passphraseOf phrase (wordsAt words is) = passphraseOf phrase us →
            Allowed (indicesOf words vs) (List.replicate count words.length) ∧
              passphraseOf phrase (wordsAt words (indicesOf words vs)) = passphraseOf phrase vs ∧
                indicesOf words us = is := by
    intro us vs hus hvs is ha his
    obtain ⟨hlength, hmem, hback⟩ := wordsAt_spec hnodup ha
    obtain ⟨hallowed, hread⟩ := indicesOf_spec hvs.2
    rw [hvs.1] at hallowed
    rw [hread, ← htold ⟨hlength, hmem⟩ hus his]
    exact ⟨hallowed, rfl, hback⟩
  exact (generatePassphrase_samples hwords h).ways_eq hdrawable
    (fun _ => indicesOf words ws') (fun _ => indicesOf words ws)
    (hdraws hws hws') (hdraws hws' hws) N

end Passphrases

/-- A list of as many words as the bundled one has. -/
def manyWords : List String :=
  (List.range 7772).map fun n => String.ofList (List.replicate (n + 1) 'a')

theorem generatePassphrase_uniform_many :
    ways 65536 20 (generatePassphrase manyWords ⟨some 6, " ", false⟩)
        (passphraseOf ⟨some 6, " ", false⟩ ["a", "a", "a", "a", "a", "a"]) =
      ways 65536 20 (generatePassphrase manyWords ⟨some 6, " ", false⟩)
        (passphraseOf ⟨some 6, " ", false⟩ ["aa", "a", "aaa", "a", "a", "a"]) := by
  have hwords : ∀ word ∈ manyWords, isWord word = true := by
    intro word hword
    obtain ⟨n, -, rfl⟩ := List.mem_map.mp hword
    simp [isWord, List.replicate_succ]
  have hnodup : manyWords.Nodup := by
    refine List.nodup_range.map fun m n heq => ?_
    have hlength := congrArg List.length (String.ofList_inj.mp heq)
    simpa using hlength
  have hmem : ∀ w ∈ ["a", "aa", "aaa"], w ∈ manyWords := by
    intro w hw
    simp only [List.mem_cons, List.not_mem_nil, or_false] at hw
    rcases hw with rfl | rfl | rfl
    · exact List.mem_map.mpr ⟨0, by simp, rfl⟩
    · exact List.mem_map.mpr ⟨1, by simp, rfl⟩
    · exact List.mem_map.mpr ⟨2, by simp, rfl⟩
  have hvalid : PassphraseOptions.Valid ⟨some 6, " ", false⟩ manyWords 6 :=
    ⟨rfl, by decide, by decide, by decide, by simp [manyWords]⟩
  refine (generatePassphrase_uniform hwords hnodup hvalid ⟨rfl, ?_⟩ ⟨rfl, ?_⟩).2 20
  · intro w hw
    exact hmem w (by revert w; decide)
  · intro w hw
    exact hmem w (by revert w; decide)

end NianPass.Desktop.Passwords
