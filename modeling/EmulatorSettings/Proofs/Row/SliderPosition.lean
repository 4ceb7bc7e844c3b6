import EmulatorSettings.Proofs.Binary32.ScaledWhole
import EmulatorSettings.Proofs.Row.Independence

/-!
# Rows — the position a slider shows

A slider is moved to a whole position and shows the whole number nearest to what it stored.  What
stands between the two is binary rounding, and the written text.

* `Slider.float_position`: a slider that stores a binary number shows the position it was moved to,
  if its bounds are at most `2 ^ 21` from zero.
* `Slider.integer_position_iff`: a slider that stores its position shows it as a binary number has
  it, which is the same number for the positions of at most 24 binary digits.
* `Slider.large_position_is_rounded`: the first position that is shown as another.
-/

namespace EmulatorSettings

namespace Slider

variable {l : Slider} {s : Settings} {p q : Int32}

/-- Where `l.least ≤ l.greatest`, the position that `clamp` answers is between them. -/
theorem toInt_of_clamp (hbounds : l.least ≤ l.greatest) (h : l.clamp p = some q) :
    l.least.toInt ≤ q.toInt ∧ q.toInt ≤ l.greatest.toInt := by
  have hle := Int32.le_iff_toInt_le.1 hbounds
  unfold clamp at h
  rw [if_neg (Int32.not_lt.2 hbounds)] at h
  split at h
  · obtain rfl := Option.some.inj h
    exact ⟨Int.le_refl _, hle⟩
  · next hlow =>
    split at h
    · obtain rfl := Option.some.inj h
      exact ⟨hle, Int.le_refl _⟩
    · next hhigh =>
      obtain rfl := Option.some.inj h
      rw [Int32.lt_iff_toInt_lt] at hlow hhigh
      exact ⟨Int.not_lt.1 hlow, Int.not_lt.1 hhigh⟩

/-! ### Binary numbers -/

/-- The slider `l` goes on storing a binary number, over the value `present`. -/
def StoresFloat (l : Slider) (present : Option Value) : Prop :=
  l.storage = .fraction ∨ l.storage = .integer ∧ ∃ x, present = some (.float x)

theorem position_of_float {x : Binary32} (h : l.address.value? s = some (.float x)) :
    l.position s = (x.scale l.scale 1).toInt32 := by
  rw [position, h]

/-- **What a slider stores as a binary number** is finite, and read as the position `q` it stands
for. -/
theorem exists_stored_float {present : Option Value} (h : l.StoresFloat present)
    (hq : q.toInt.natAbs ≤ 2 ^ 21) :
    ∃ x, l.stored present q = .float x ∧ x.isFinite = true ∧ (x.scale l.scale 1).toInt32 = q := by
  obtain hstorage | ⟨hstorage, y, rfl⟩ := h
  · obtain ⟨n, hn, hback⟩ := Binary32.exists_toInt32_hundredth hq
    refine ⟨Binary32.finite (q.toInt < 0) n, ?_, rfl, ?_⟩
    · unfold stored
      rw [hstorage, hn]
    · rw [scale, hstorage]
      exact hback
  · obtain ⟨n, hn, -⟩ := Binary32.exists_ofInt (i := q.toInt) (by omega)
    refine ⟨Binary32.finite (q.toInt < 0) n, ?_, rfl, ?_⟩
    · unfold stored
      rw [hstorage, hn]
    · -- so few binary digits are all kept
      have hexcess := Binary32.excessBits_of_lt (n := q.toInt.natAbs) (by omega)
      rw [scale, hstorage, ← hn]
      refine Binary32.toInt32_ofInt_eq_iff.2 (.inl ?_)
      rw [Binary32.excessBits] at hexcess
      rw [hexcess]
      exact Nat.one_dvd _

/-- **A slider that stores a binary number** gives its position back.  The bounds of `l` are at most
`2 ^ 21` from zero, and it `StoresFloat`: hundredths, whatever was stored before, or its position
over a binary number.  Then `move` takes it to every `p`; what it stores is a finite number,
`position` is the nearest one to `p` between the bounds, and still is wherever the address gives
what `Value.ofText` reads from the text of that number. -/
theorem float_position (hbounds : l.least ≤ l.greatest) (hlow : -2 ^ 21 ≤ l.least.toInt)
    (hhigh : l.greatest.toInt ≤ 2 ^ 21) (hstores : l.StoresFloat (l.address.value? s))
    (p : Int32) :
    ∃ q r x, l.clamp p = some q ∧ l.move s p = .ok r ∧
      l.address.value? r.2 = some (.float x) ∧ x.isFinite = true ∧ l.position r.2 = q ∧
      ∀ t, l.address.value? t = some (.ofText (Value.float x).written) → l.position t = q := by
  obtain ⟨q, hq⟩ := exists_clamp hbounds p
  obtain ⟨hlo, hhi⟩ := toInt_of_clamp hbounds hq
  obtain ⟨x, hx, hfinite, hback⟩ := exists_stored_float (q := q) hstores (by omega)
  have hmove := move_of_clamp hq s
  rw [hx] at hmove
  have hvalue := l.address.value?_set s (.float x)
  refine ⟨q, _, x, hq, hmove, hvalue, hfinite, ?_, fun t ht => ?_⟩
  · rw [position_of_float hvalue, hback]
  · rw [Value.ofText_written_float hfinite] at ht
    rw [position_of_float ht, hback]

/-- A balance in hundredths, as far left as it goes, and a factor over a stored binary number. -/
theorem float_position_of_balance :
    let balance : Slider :=
      ⟨⟨.config, "Audio", "balance"⟩, -0x200000, 0x200000, 0, "", .fraction⟩
    let factor : Slider := ⟨⟨.config, "Renderer", "factor"⟩, 1, 4, 1, "x", .integer⟩
    let scaled := (factor.address.set Control.loudSettings (.float (.ofRatio false 5 2))).2
    (∃ r x, balance.move Control.loudSettings (-0x200001) = .ok r ∧
      balance.address.value? r.2 = some (.float x) ∧ balance.position r.2 = -0x200000) ∧
    ∃ r x, factor.move scaled 3 = .ok r ∧ factor.address.value? r.2 = some (.float x) ∧
      ∀ t, factor.address.value? t = some (.ofText (Value.float x).written) →
        factor.position t = 3 := by
  intro balance factor scaled
  obtain ⟨q, r, x, hq, hr, hx, -, hposition, -⟩ :=
    float_position (l := balance) (s := Control.loudSettings) (by decide) (by decide) (by decide)
      (.inl rfl) (-0x200001)
  obtain rfl : -0x200000 = q := Option.some.inj (Eq.trans (by decide) hq)
  refine ⟨⟨r, x, hr, hx, hposition⟩, ?_⟩
  have hscaled := factor.address.value?_set Control.loudSettings (.float (.ofRatio false 5 2))
  obtain ⟨q, r, x, hq, hr, hx, -, -, hback⟩ :=
    float_position (l := factor) (s := scaled) (by decide) (by decide) (by decide)
      (.inr ⟨rfl, _, hscaled⟩) 3
  obtain rfl : 3 = q := Option.some.inj (Eq.trans (by decide) hq)
  exact ⟨r, x, hr, hx, hback⟩

/-! ### Whole numbers -/

theorem position_of_int (hstorage : l.storage = .integer)
    (h : l.address.value? s = some (.int q)) :
    l.position s = ((Binary32.ofInt q.toInt).scale 1 1).toInt32 := by
  rw [position, h, scale, hstorage]

theorem stored_integer (hstorage : l.storage = .integer) {present : Option Value}
    (h : ∀ x, present ≠ some (.float x)) (q : Int32) : l.stored present q = .int q := by
  unfold stored
  rw [hstorage]
  split
  · contradiction
  · next x _ => exact absurd rfl (h x)
  · rfl

/-- **Which `position` is shown** by a slider that stores its position as an integer, where no
binary number is stored yet.  Then `move` takes it to every `p` and stores `q`, the nearest one
between its bounds.  It shows `q` rounded to 24 binary digits, and as far as 32 bits go: `q` itself
exactly if it has at most 24 digits before its zeros at the end, or is `Int32.maxValue`.  If the
address is `Storable` and the other settings of the file are readable entries, the same number is
stored, and the same position shown, once the file is written and read back. -/
theorem integer_position_iff (hstorage : l.storage = .integer) (hbounds : l.least ≤ l.greatest)
    (hpresent : ∀ x, l.address.value? s ≠ some (.float x)) (p : Int32) :
    ∃ q r, l.clamp p = some q ∧ l.move s p = .ok r ∧ l.address.value? r.2 = some (.int q) ∧
      (l.position r.2).toInt =
        (if q.toInt < 0 then -min (Binary32.roundWhole q.toInt.natAbs : Int) 0x80000000
          else min (Binary32.roundWhole q.toInt.natAbs : Int) 0x7FFFFFFF) ∧
      (l.position r.2 = q ↔
        2 ^ (q.toInt.natAbs.log2 - 23) ∣ q.toInt.natAbs ∨ q = Int32.maxValue) ∧
      (s.WellStored → l.address.Storable → l.address.OthersReadable s → ∀ t,
        t.file? l.address.file = some (Ini.read l.address.file
          (Ini.write (r.2.fileOrNew l.address.file))).sections →
        l.address.value? t = some (.int q) ∧ l.position t = l.position r.2) := by
  obtain ⟨q, hq⟩ := exists_clamp hbounds p
  have hmove := move_of_clamp hq s
  rw [stored_integer hstorage hpresent] at hmove
  have hvalue := l.address.value?_set s (.int q)
  have hshown := position_of_int hstorage hvalue
  have hlo := Int32.le_toInt q
  have hhi := Int32.toInt_lt q
  refine ⟨q, _, hq, hmove, hvalue, ?_, ?_, fun hs ha hothers t ht => ?_⟩
  · rw [hshown, Binary32.toInt_toInt32_ofInt (by omega)]
  · rw [hshown, Binary32.toInt32_ofInt_eq_iff]
  · have hreread := Address.value?_reread hs ha hothers (Value.presentable_int q) ht
    rw [Value.ofText_written_int] at hreread
    exact ⟨hreread, (position_of_int hstorage hreread).trans hshown.symm⟩

/-- A slider over all positions that are not negative. -/
def wideVolume : Slider := ⟨⟨.config, "Audio", "volume"⟩, 0, Int32.maxValue, 0, "", .integer⟩

/-- The greatest position, over a text. -/
theorem integer_position_of_greatest :
    ∃ r, wideVolume.move Control.loudSettings Int32.maxValue = .ok r ∧
      wideVolume.position r.2 = Int32.maxValue ∧
      ∀ t, t.file? .config = some (Ini.read .config (Ini.write (r.2.fileOrNew .config))).sections →
        wideVolume.position t = Int32.maxValue := by
  have hpresent : wideVolume.address.value? Control.loudSettings = some (.text "loud") :=
    wideVolume.address.value?_set .empty (.text "loud")
  obtain ⟨q, r, hq, hr, -, -, hshown, hreread⟩ :=
    integer_position_iff (l := wideVolume) (s := Control.loudSettings) rfl (by decide)
      (by rw [hpresent]; nofun) Int32.maxValue
  obtain rfl : Int32.maxValue = q := Option.some.inj (Eq.trans (by decide) hq)
  have hposition := hshown.2 (.inr rfl)
  have hothers : wideVolume.address.OthersReadable Control.loudSettings := by
    intro b x hne _ hx
    have helsewhere := wideVolume.address.get?_set_of_ne .empty hne (.text "loud")
    cases helsewhere.symm.trans hx
  have hstored := Settings.wellStored_set Settings.wellStored_empty .config "Audio" "volume"
    (.text "loud")
  refine ⟨r, hr, hposition, fun t ht => ?_⟩
  obtain ⟨-, hsame⟩ := hreread hstored ⟨by decide, by decide⟩ hothers t ht
  exact hsame.trans hposition

/-- The first position with more than 24 binary digits, `0x1000001`, is stored as it is, and shown
as the one before it. -/
theorem large_position_is_rounded :
    ∃ r, wideVolume.clamp 0x1000001 = some 0x1000001 ∧
      wideVolume.move Control.loudSettings 0x1000001 = .ok r ∧
      wideVolume.address.value? r.2 = some (.int 0x1000001) ∧
      wideVolume.position r.2 = 0x1000000 := by
  have hclamp : wideVolume.clamp 0x1000001 = some 0x1000001 := by decide
  have hpresent : wideVolume.address.value? Control.loudSettings = some (.text "loud") :=
    wideVolume.address.value?_set .empty (.text "loud")
  have hmove := move_of_clamp hclamp Control.loudSettings
  rw [hpresent] at hmove
  have hvalue := wideVolume.address.value?_set Control.loudSettings (.int 0x1000001)
  exact ⟨_, hclamp, hmove, hvalue, (position_of_int rfl hvalue).trans (by decide +kernel)⟩

end Slider

end EmulatorSettings
