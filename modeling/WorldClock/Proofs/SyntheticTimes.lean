import WorldClock.Calendar.Basic

/-!
# What stands for a moment of simulated time

A moment of simulated time stands for its epoch and the time that has passed, cut off at the last
time there is. This is exact and keeps the order of epochs and of moments, with one exception: an
epoch in a leap second. From there it takes a second less to any time after the leap second, so that
a moment may stand for an earlier time than it does from an epoch in the second before.
-/

namespace WorldClock.Utc

variable {epoch epoch' : Utc} {t t' : Duration}

/-- What stands for a moment of simulated time stays in the leap second that the epoch is in. -/
theorem synthetic_of_staysLeap (h : epoch.staysLeap t.nanos = true) :
    (synthetic epoch t).seconds = epoch.seconds ∧
      (synthetic epoch t).nanos = epoch.nanos + t.nanos := by
  have hshort : t.nanos ≤ maxOffsetMillis * nanosPerMilli := by
    obtain ⟨-, hlt⟩ := nanos_lt_of_staysLeap h
    simp only [maxOffsetMillis, nanosPerMilli, nanosPerSecond] at *
    omega
  rw [synthetic, offset?, if_pos hshort, Option.bind_some, add?, dif_pos h]
  exact ⟨rfl, rfl⟩

/-- Otherwise it is cut off at the last time, and nowhere else. -/
theorem synthetic_of_not_staysLeap (h : epoch.staysLeap t.nanos = false) :
    synthetic epoch t = (Instant.clamp (epoch.plainNanos + t.nanos)).toUtc := by
  have hmin := epoch.min_le_plainNanos
  have hcut := Instant.ofNanos?_getD (n := epoch.plainNanos + t.nanos) (by omega)
  rw [synthetic, offset?]
  split
  · rw [Option.bind_some, add?, dif_neg (by simp [h]), latest, Option.getD_map, hcut]
  · next hlong =>
    -- Offsets have a wider range than times: one beyond it leads out of the other from anywhere.
    have hnone : Instant.ofNanos? (epoch.plainNanos + t.nanos) = none := by
      refine dif_neg ?_
      simp only [Instant.minNanos, Instant.maxNanos, maxOffsetMillis, nanosPerMilli] at *
      omega
    rw [hnone] at hcut
    exact congrArg Instant.toUtc hcut

theorem unixNanos_synthetic (h : epoch.staysLeap t.nanos = false) :
    (synthetic epoch t).unixNanos = min (epoch.plainNanos + t.nanos) latest.unixNanos := by
  have hmin := epoch.min_le_plainNanos
  rw [synthetic_of_not_staysLeap h, unixNanos_toUtc, latest, unixNanos_toUtc]
  exact Instant.nanos_clamp (by omega)

theorem isLeap_synthetic : (synthetic epoch t).isLeap = epoch.staysLeap t.nanos := by
  cases hstays : epoch.staysLeap t.nanos with
  | false =>
    rw [synthetic_of_not_staysLeap hstays]
    exact isLeap_toUtc _
  | true =>
    have hleap : nanosPerSecond ≤ epoch.nanos := of_decide_eq_true (isLeap_of_staysLeap hstays)
    refine decide_eq_true ?_
    rw [(synthetic_of_staysLeap hstays).2]
    exact Nat.le_trans hleap (Nat.le_add_right _ _)

theorem synthetic_of_not_isLeap (h : epoch.isLeap = false) :
    (synthetic epoch t).isLeap = false ∧
      (synthetic epoch t).unixNanos = min (epoch.unixNanos + t.nanos) latest.unixNanos := by
  have hleaves : epoch.staysLeap t.nanos = false := by rw [staysLeap, h, Bool.false_and]
  exact ⟨isLeap_synthetic.trans hleaves, plainNanos_of_not_isLeap h ▸ unixNanos_synthetic hleaves⟩

theorem synthetic_of_isLeap (h : epoch.isLeap = true) :
    if epoch.nanos + t.nanos < 2 * nanosPerSecond then
      (synthetic epoch t).isLeap = true ∧
        (synthetic epoch t).unixNanos = epoch.unixNanos + t.nanos
    else
      (synthetic epoch t).isLeap = false ∧ (synthetic epoch t).unixNanos =
        min (epoch.unixNanos + t.nanos - nanosPerSecond) latest.unixNanos := by
  rw [isLeap_synthetic]
  have hstays := staysLeap_of_isLeap h t.nanos
  split
  · next hinside =>
    rw [decide_eq_true hinside] at hstays
    obtain ⟨hseconds, hnanos⟩ := synthetic_of_staysLeap hstays
    refine ⟨hstays, ?_⟩
    rw [unixNanos, unixNanos, hseconds, hnanos, Int.natCast_add, Int.add_assoc]
  · next hbeyond =>
    rw [decide_eq_false hbeyond] at hstays
    have hearly : epoch.plainNanos + t.nanos = epoch.unixNanos + t.nanos - nanosPerSecond := by
      rw [plainNanos_of_isLeap h]
      omega
    exact ⟨hstays, hearly ▸ unixNanos_synthetic hstays⟩

/-! ### Order -/

theorem le_of_lt {a b : Utc} (h : a < b) : a ≤ b := by
  rw [lt_iff] at h
  rw [le_iff]
  omega

theorem toUtc_le_toUtc {a b : Instant} (h : a ≤ b) : a.toUtc ≤ b.toUtc := by
  have hnanos : a.nanos ≤ b.nanos := h
  simp only [le_iff, Instant.toUtc, nanosPerSecond]
  omega

theorem toUtc_lt_toUtc {a b : Instant} : a.toUtc < b.toUtc ↔ a < b := by
  change _ ↔ a.nanos < b.nanos
  simp only [lt_iff, Instant.toUtc, nanosPerSecond]
  omega

/-- If two times are in the same second, they are both in a leap second or both not. -/
def LeapAlike (a b : Utc) : Prop := a.seconds = b.seconds → a.isLeap = b.isLeap

/-- A longer time does not stay where a shorter one does not. -/
theorem not_staysLeap_of_le {n n' : Nat} (h : epoch.staysLeap n = false) (hle : n ≤ n') :
    epoch.staysLeap n' = false := by
  refine Bool.eq_false_iff.mpr fun hstays => ?_
  obtain ⟨-, hinside⟩ := nanos_lt_of_staysLeap hstays
  rw [staysLeap_of_isLeap (isLeap_of_staysLeap hstays)] at h
  exact of_decide_eq_false h (Nat.lt_of_le_of_lt (Nat.add_le_add_left hle _) hinside)

theorem plainNanos_le (h : epoch ≤ epoch') (halike : epoch.LeapAlike epoch') :
    epoch.plainNanos ≤ epoch'.plainNanos := by
  have hleap (hsame : epoch.seconds = epoch'.seconds) :
      nanosPerSecond ≤ epoch.nanos ↔ nanosPerSecond ≤ epoch'.nanos :=
    decide_eq_decide.mp (halike hsame)
  have hlt := epoch.nanos_lt
  have hlt' := epoch'.nanos_lt
  simp only [le_iff, plainNanos, nanosPerSecond] at *
  omega

theorem lt_maxSeconds_of_isLeap (h : epoch.isLeap = true) (hlatest : epoch ≤ latest) :
    epoch.seconds < maxSeconds := by
  have hleap : nanosPerSecond ≤ epoch.nanos := of_decide_eq_true h
  simp only [le_iff, latest, Instant.latest, Instant.toUtc, Instant.maxNanos, maxSeconds,
    nanosPerSecond] at *
  omega

theorem seconds_synthetic (h : epoch.staysLeap t.nanos = false) :
    (synthetic epoch t).seconds =
      min (epoch.seconds + ((epoch.nanos % nanosPerSecond + t.nanos) / nanosPerSecond : Nat))
        maxSeconds := by
  have hmin := epoch.min_le_plainNanos
  have hcut := Instant.nanos_clamp (n := epoch.plainNanos + t.nanos) (by omega)
  rw [synthetic_of_not_staysLeap h]
  change (Instant.clamp _).nanos / (nanosPerSecond : Int) = _
  rw [hcut]
  simp only [plainNanos, Instant.maxNanos, maxSeconds, nanosPerSecond]
  omega

theorem seconds_le_synthetic : epoch.seconds ≤ (synthetic epoch t).seconds := by
  have hmax := epoch.le_max
  cases hstays : epoch.staysLeap t.nanos with
  | true => exact Int.le_of_eq (synthetic_of_staysLeap hstays).1.symm
  | false =>
    rw [seconds_synthetic hstays, nanosPerSecond]
    omega

theorem seconds_lt_synthetic (h : epoch.isLeap = true) (hlatest : epoch.seconds < maxSeconds)
    (hleaves : epoch.staysLeap t.nanos = false) :
    epoch.seconds < (synthetic epoch t).seconds := by
  have hlt := epoch.nanos_lt
  have hleap : nanosPerSecond ≤ epoch.nanos := of_decide_eq_true h
  rw [seconds_synthetic hleaves]
  rw [staysLeap_of_isLeap h] at hleaves
  have hlong := of_decide_eq_false hleaves
  simp only [nanosPerSecond] at *
  omega

/-- What stands for a moment and is not in a leap second is not later than what stands, from a later
epoch, for a later moment and is in one. -/
theorem synthetic_le_of_staysLeap (hepoch : epoch ≤ epoch') (halike : epoch.LeapAlike epoch')
    (ht : t ≤ t') (hleaves : epoch.staysLeap t.nanos = false)
    (hstays : epoch'.staysLeap t'.nanos = true) : synthetic epoch t ≤ synthetic epoch' t' := by
  have hshort : t.nanos ≤ t'.nanos := ht
  have hplain : (synthetic epoch t).nanos < nanosPerSecond :=
    Nat.lt_of_not_le (of_decide_eq_false (isLeap_synthetic.trans hleaves))
  have hseconds := seconds_synthetic hleaves
  obtain ⟨hseconds', hnanos'⟩ := synthetic_of_staysLeap hstays
  obtain ⟨-, hinside⟩ := nanos_lt_of_staysLeap hstays
  have hleap' := isLeap_of_staysLeap hstays
  have hlate : nanosPerSecond ≤ epoch'.nanos := of_decide_eq_true hleap'
  -- In the second of the later epoch the earlier one would be in the leap second, and stay in it.
  have hbefore : epoch.seconds < epoch'.seconds := by
    obtain hbefore | ⟨hsame, hle⟩ := le_iff.mp hepoch
    · exact hbefore
    · rw [staysLeap_of_isLeap ((halike hsame).trans hleap')] at hleaves
      exact absurd (of_decide_eq_false hleaves) (by omega)
  rw [le_iff, hseconds', hnanos', hseconds]
  simp only [nanosPerSecond] at *
  omega

theorem synthetic_le_synthetic (hlatest : epoch ≤ latest) (hepoch : epoch ≤ epoch')
    (halike : epoch.LeapAlike epoch') (ht : t ≤ t') :
    synthetic epoch t ≤ synthetic epoch' t' := by
  have hlong : t.nanos ≤ t'.nanos := ht
  cases hstays : epoch.staysLeap t.nanos with
  | false =>
    cases hstays' : epoch'.staysLeap t'.nanos with
    | false =>
      have hplain := plainNanos_le hepoch halike
      have hmin := epoch.min_le_plainNanos
      rw [synthetic_of_not_staysLeap hstays, synthetic_of_not_staysLeap hstays']
      refine toUtc_le_toUtc ?_
      change (Instant.clamp _).nanos ≤ (Instant.clamp _).nanos
      rw [Instant.nanos_clamp (by omega), Instant.nanos_clamp (by omega)]
      omega
    | true => exact synthetic_le_of_staysLeap hepoch halike ht hstays hstays'
  | true =>
    obtain ⟨hseconds, hnanos⟩ := synthetic_of_staysLeap hstays
    rw [le_iff, hseconds, hnanos]
    cases hstays' : epoch'.staysLeap t'.nanos with
    | false =>
      have hleap := isLeap_of_staysLeap hstays
      refine .inl ?_
      obtain hbefore | ⟨hsame, -⟩ := le_iff.mp hepoch
      · exact Int.lt_of_lt_of_le hbefore seconds_le_synthetic
      · rw [hsame]
        exact seconds_lt_synthetic ((halike hsame).symm.trans hleap)
          (hsame ▸ lt_maxSeconds_of_isLeap hleap hlatest) hstays'
    | true =>
      obtain ⟨hseconds', hnanos'⟩ := synthetic_of_staysLeap hstays'
      rw [hseconds', hnanos']
      have hle := le_iff.mp hepoch
      omega

theorem synthetic_lt_synthetic (ht : t < t') (hlatest : synthetic epoch t < latest) :
    synthetic epoch t < synthetic epoch t' := by
  have hlong : t.nanos < t'.nanos := ht
  cases hstays : epoch.staysLeap t.nanos with
  | false =>
    have hmin := epoch.min_le_plainNanos
    rw [synthetic_of_not_staysLeap hstays] at hlatest ⊢
    rw [synthetic_of_not_staysLeap (not_staysLeap_of_le hstays (Nat.le_of_lt hlong))]
    refine toUtc_lt_toUtc.mpr ?_
    have hearly : (Instant.clamp _).nanos < Instant.maxNanos := toUtc_lt_toUtc.mp hlatest
    change (Instant.clamp _).nanos < (Instant.clamp _).nanos
    rw [Instant.nanos_clamp (by omega)] at hearly ⊢
    rw [Instant.nanos_clamp (by omega)]
    omega
  | true =>
    obtain ⟨hseconds, hnanos⟩ := synthetic_of_staysLeap hstays
    cases hstays' : epoch.staysLeap t'.nanos with
    | false =>
      have hbefore := lt_maxSeconds_of_isLeap (isLeap_synthetic.trans hstays) (le_of_lt hlatest)
      rw [hseconds] at hbefore
      exact .inl (hseconds ▸
        seconds_lt_synthetic (isLeap_of_staysLeap hstays) hbefore hstays')
    | true =>
      obtain ⟨hseconds', hnanos'⟩ := synthetic_of_staysLeap hstays'
      rw [lt_iff, hseconds, hnanos, hseconds', hnanos']
      omega

/-- The start of the leap second at the end of 2016. -/
def leapSecond : Utc := ⟨1483228799, nanosPerSecond, by decide, by decide, .inr (by decide)⟩

end WorldClock.Utc
