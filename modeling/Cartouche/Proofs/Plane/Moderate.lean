import Cartouche.Plane.Centroid
import Cartouche.Proofs.Plane.Extent

/-!
# Representative points that are finite

The point that stands for a finite geometry is not always finite: sums, squares and moments overflow
long before coordinates do. `Geometry.IsModerate` is what keeps it finite
(`Geometry.isFinite_of_mem_centroid?`), and it asks for less the less is computed. Of points, only
the sum can overflow. Along a line whatever overflows does no harm, and only elevations count.
Several lines are averaged with their lengths as weights and areas have moments of the third degree,
so their coordinates are bounded. There is no bound on the number of points anywhere.
-/

namespace Cartouche

open Binary64

/-! ## Along a line -/

/-- The part of a segment up to the middle of a path is not longer than the segment, also as it is
computed. -/
theorem isWithin_fraction {half walked length : Float} (hhalf : IsNonneg half)
    (hwalked : IsNonneg walked) (hlength : IsNonneg length) (hhalffin : half.isFinite)
    (hlengthfin : length.isFinite) (hle : sizeBits walked ≤ sizeBits half)
    (hlt : half < walked + length) : IsWithin ((half - walked) / length) 0 := by
  have hhalfbits := (isFinite_iff half).1 hhalffin
  have hwalkedfin : walked.isFinite := (isFinite_iff _).2 (hle.trans_lt hhalfbits)
  have hbefore : value (sizeBits walked) ≤ value (sizeBits half) := strictMono_value.monotone hle
  have hbehind : value (sizeBits half) < value (sizeBits walked) + value (sizeBits length) := by
    -- What is rounded to more than a double is itself more than it.
    have hsum : 0 ≤ value (sizeBits walked) + value (sizeBits length) :=
      add_nonneg (value_nonneg _) (value_nonneg _)
    have hreached := (add_spec hwalkedfin hlengthfin).2
    rw [hwalked.number_eq, hlength.number_eq, abs_of_nonneg hsum] at hreached
    rw [hhalf.lt_iff (hwalked.add hlength).1, hreached] at hlt
    exact value_lt_of_lt_roundToBits hsum hlt
  have hpos : 0 < value (sizeBits length) := by linarith
  obtain ⟨-, hway⟩ := sub_spec hhalffin hwalkedfin
  rw [hhalf.number_eq, hwalked.number_eq, abs_of_nonneg (by linarith)] at hway
  have hwaybits : sizeBits (half - walked) ≤ sizeBits length := by
    rw [hway, ← roundToBits_value hlength.isNumber]
    exact roundToBits_mono (by linarith) (by linarith)
  have hwayfin : (half - walked).isFinite :=
    (isFinite_iff _).2 (hwaybits.trans_lt ((isFinite_iff length).1 hlengthfin))
  refine isWithin_of_round (div_spec hwayfin hlengthfin (value_pos_iff.1 hpos)).2
    (div_nonneg (value_nonneg _) (value_nonneg _)) ?_ (by norm_num)
  rw [pow_zero, div_le_one hpos]
  exact strictMono_value.monotone hwaybits

/-- The ends are finite, and their elevations are far from the end of the range. -/
structure Segment.IsSound (s : Segment Float) : Prop where
  start : s.start.isFinite
  stop : s.stop.isFinite
  startLow : s.start.HasLowElevation
  stopLow : s.stop.HasLowElevation

/-- The point on which a walk ends is finite. It is inside a segment only if half of the length is
finite, and then so are the lengths of all segments. -/
theorem isFinite_of_mem_walkTo? {half walked : Float} {path : List (Segment Float)}
    (hhalf : IsNonneg half) (hwalked : IsNonneg walked) (hle : sizeBits walked ≤ sizeBits half)
    (hsound : ∀ s ∈ path, s.IsSound) (hfin : half.isFinite → ∀ s ∈ path, s.length.isFinite)
    {c : Point Float} (hc : walkTo? Segment.length half walked path = some c) : c.isFinite := by
  induction path generalizing walked with
  | nil => cases hc
  | cons s rest ih =>
    have hs := hsound s (by simp)
    obtain ⟨hlength, -, hends⟩ := Segment.isNonneg_length hs.start hs.stop
    obtain ⟨hreached, -, -⟩ := hwalked.add hlength
    simp only [walkTo?] at hc
    split at hc
    · obtain rfl : s.stop = c := by simpa using hc
      exact hs.stop
    · split at hc
      · next hlt =>
        have hhalffin : half.isFinite := by
          have hbits := (hhalf.lt_iff hreached).1 hlt
          exact (isFinite_iff _).2 (hbits.trans_le hreached.isNumber)
        have hlengthfin := hfin hhalffin s (by simp)
        obtain ⟨hx, hy⟩ := hends hlengthfin
        obtain rfl : s.pointAt ((half - walked) / s.length) = c := by simpa using hc
        exact Segment.isFinite_pointAt hs.start hs.stop hs.startLow hs.stopLow hx hy
          (isWithin_fraction hhalf hwalked hlength hhalffin hlengthfin hle hlt)
      · next hnot =>
        refine ih hreached ?_ (fun t ht => hsound t (by simp [ht]))
          (fun h t ht => hfin h t (by simp [ht])) hc
        exact not_lt.1 (mt (hhalf.lt_iff hreached).2 hnot)

/-- The point half way along a path of finite points with low elevations is finite. -/
theorem isFinite_of_mem_lineCentroid? {points : List (Point Float)}
    (hfin : ∀ p ∈ points, p.isFinite) (hlow : ∀ p ∈ points, p.HasLowElevation) {c : Point Float}
    (hc : lineCentroid? Segment.length points = some c) : c.isFinite := by
  have hsound : ∀ s ∈ segments points, s.IsSound := by
    intro s hs
    obtain ⟨hstart, hstop⟩ := mem_of_mem_segments hs
    exact ⟨hfin _ hstart, hfin _ hstop, hlow _ hstart, hlow _ hstop⟩
  have hlengths : ∀ t ∈ (segments points).map Segment.length, IsNonneg t := by
    intro t ht
    obtain ⟨s, hs, rfl⟩ := List.mem_map.1 ht
    exact (Segment.isNonneg_length (hsound s hs).start (hsound s hs).stop).1
  obtain ⟨htotal, -, hterms⟩ := isNonneg_neg_zero.foldl_add hlengths
  cases points with
  | nil => cases hc
  | cons first rest =>
    simp only [lineCentroid?] at hc
    split at hc
    · obtain rfl : first = c := by simpa using hc
      exact hfin first (by simp)
    · have htwo : IsWithin (Float.ofNat 2) 1 := isWithin_ofNat le_rfl (by norm_num)
      have hpos : 0 < powerBits 0 := by decide
      obtain ⟨hhalf, hhalffin⟩ := htotal.div (isNonneg_ofNat 2) htwo.isFinite
        (hpos.trans_le (powerBits_zero_le_sizeBits_ofNat two_pos))
      rcases Option.or_eq_some_iff.1 hc with hc | ⟨-, hc⟩
      · refine isFinite_of_mem_walkTo? hhalf (isNonneg_ofNat 0) ?_ hsound ?_ hc
        · exact sizeBits_ofNat_zero ▸ Nat.zero_le _
        · intro h s hs
          have hbits := hterms s.length (List.mem_map_of_mem hs)
          exact (isFinite_iff _).2 (hbits.trans_lt ((isFinite_iff _).1 (hhalffin h)))
      · exact hfin c (List.mem_of_getLast? hc)

/-! ## Means -/

/-- The mean of points is finite when their coordinates are not larger than `2 ^ 970`. -/
theorem isFinite_of_mem_pointsCentroid? {points : List (Point Float)}
    (hwithin : ∀ p ∈ points, p.IsWithin 970) {c : Point Float}
    (hc : pointsCentroid? points = some c) : c.isFinite := by
  have hsum : (points.foldl (fun (sum : Offset Float) p => sum + p.toOffset) .zero).IsWithin
      (970 + 53) := by
    refine List.foldlRecOn (motive := (Offset.IsWithin · (970 + 53))) points _ (.zero _) ?_
    intro sum hsum p hp
    exact hsum.add_small (hwithin p hp).toOffset (by norm_num)
  unfold pointsCentroid? at hc
  split at hc
  · cases hc
  · next hne =>
    have hpos : 0 < points.length := by
      rw [List.isEmpty_iff] at hne
      exact List.length_pos_of_ne_nil hne
    have hmean := hsum.divide_ofNat (by norm_num) hpos
    obtain rfl := Option.some.inj hc
    exact Point.isFinite_mk hmean.dx.isFinite hmean.dy.isFinite

/-- What is summed up of the segments of lines: the weighted midpoints are bounded, the sum of the
lengths is zero or not too small to divide by. -/
structure IsWeighed (sum : Offset Float × Float) (e : Nat) : Prop where
  weighted : sum.1.IsWithin (2 * e + 4 + 53)
  total : IsWithin sum.2 (e + 2 + 53)
  nonneg : IsNonneg sum.2
  least : sizeBits sum.2 = 0 ∨ powerBits (-537) ≤ sizeBits sum.2

/-- Nothing is summed up at the start, and a sum of lengths may be zero. -/
theorem IsWeighed.zero (e : Nat) : IsWeighed (.zero, Scalar.zero) e where
  weighted := .zero _
  total := isWithin_zero _
  nonneg := isNonneg_ofNat 0
  least := .inl sizeBits_ofNat_zero

/-- One more segment is weighed. -/
theorem IsWeighed.step {sum : Offset Float × Float} {e : Nat} (h : IsWeighed sum e)
    {s : Segment Float} (hstart : s.start.IsWithin e) (hstop : s.stop.IsWithin e)
    (hstartfin : s.start.isFinite) (hstopfin : s.stop.isFinite) (he : 2 * e + 57 < 1024) :
    IsWeighed (sum.1 + s.midpoint.toOffset.scale s.length, sum.2 + s.length) e := by
  have hlength := Segment.isWithin_length hstart hstop (by omega)
  have hmidpoint := Segment.isWithin_midpoint hstart hstop (by omega)
  obtain ⟨hnonneg, hleast, -⟩ := Segment.isNonneg_length hstartfin hstopfin
  refine ⟨?_, h.total.add_small hlength (by omega), (h.nonneg.add hnonneg).1,
    h.nonneg.add_least hnonneg h.least hleast⟩
  refine h.weighted.add_small ?_ (by omega)
  exact (hmidpoint.toOffset.scale hlength (by omega)).mono (by omega)

/-- The weighted mean of lines is finite when their coordinates are not larger than `2 ^ 200`. -/
theorem isFinite_of_mem_linesCentroid? {paths : List (List (Point Float))}
    (hfin : ∀ path ∈ paths, ∀ p ∈ path, p.isFinite)
    (hwithin : ∀ path ∈ paths, ∀ p ∈ path, p.IsWithin 200) {c : Point Float}
    (hc : linesCentroid? Segment.length paths = some c) : c.isFinite := by
  simp only [linesCentroid?] at hc
  have hweighed : IsWeighed ((paths.flatMap segments).foldl
      (fun sum s => (sum.1 + s.midpoint.toOffset.scale s.length, sum.2 + s.length))
      (Offset.zero, Scalar.zero)) 200 := by
    refine List.foldlRecOn (motive := (IsWeighed · 200)) (paths.flatMap segments) _ (.zero 200) ?_
    intro sum hsum s hs
    obtain ⟨path, hpath, hs⟩ := List.mem_flatMap.1 hs
    obtain ⟨hstart, hstop⟩ := mem_of_mem_segments hs
    exact hsum.step (hwithin path hpath _ hstart) (hwithin path hpath _ hstop)
      (hfin path hpath _ hstart) (hfin path hpath _ hstop) (by norm_num)
  split at hc
  · next hpos =>
    have hlarge : powerBits (-537) ≤ sizeBits _ := hweighed.least.resolve_left fun h0 => by
      have hbits := ((isNonneg_ofNat 0).lt_iff hweighed.nonneg).1 hpos
      exact absurd (h0 ▸ hbits) (Nat.not_lt_zero _)
    have hlow := strictMono_value.monotone hlarge
    rw [value_powerBits (by norm_num)] at hlow
    have hcenter := hweighed.weighted.divide (d := 537) hweighed.total.isFinite hlow (by norm_num)
    obtain rfl := Option.some.inj hc
    exact Point.isFinite_mk hcenter.dx.isFinite hcenter.dy.isFinite
  · obtain ⟨path, hpath, hhead⟩ := List.exists_of_findSome?_eq_some hc
    exact hfin path hpath c (List.mem_of_mem_head? hhead)

/-! ## Moments -/

/-- An area and its moment are bounded. -/
structure IsBounded (sum : Float × Offset Float) (d e : Nat) : Prop where
  area : IsWithin sum.1 d
  moment : sum.2.IsWithin e

namespace IsBounded

variable {sum part : Float × Offset Float} {d e : Nat}

/-- Nothing is summed up at the start. -/
theorem zero (d e : Nat) : IsBounded (Scalar.zero, .zero) d e := ⟨isWithin_zero d, .zero e⟩

/-- Choosing the other sign changes no size. -/
theorem neg (h : IsBounded sum d e) : IsBounded (-sum.1, -sum.2) d e := ⟨h.area.neg, h.moment.neg⟩

/-- Adding a part that is `2 ^ 53` times smaller than the bounds leaves the sums within them, so
there may be any number of parts. -/
theorem add (h : IsBounded sum (d + 53) (e + 53)) (hpart : IsBounded part d e)
    (hd : d + 53 < 1024) (he : e + 53 < 1024) :
    IsBounded (sum.1 + part.1, sum.2 + part.2) (d + 53) (e + 53) :=
  ⟨h.area.add_small hpart.area hd, h.moment.add_small hpart.moment he⟩

/-- Taking away such a part leaves the sums within their bounds, too. -/
theorem sub (h : IsBounded sum (d + 53) (e + 53)) (hpart : IsBounded part d e)
    (hd : d + 53 < 1024) (he : e + 53 < 1024) :
    IsBounded (sum.1 - part.1, sum.2 - part.2) (d + 53) (e + 53) :=
  ⟨h.area.sub_small hpart.area hd, h.moment.sub_small hpart.moment he⟩

end IsBounded

section

variable {origin : Point Float} {k : Nat} (horigin : origin.IsWithin k) (hk : 3 * k + 111 < 1024)

include horigin hk

/-- What a segment adds to the area of a ring and to its moment. -/
theorem isBounded_segment {s : Segment Float} (hstart : s.start.IsWithin k)
    (hstop : s.stop.IsWithin k) :
    let a := s.start.sub origin
    let b := s.stop.sub origin
    let cross := a.dx * b.dy - b.dx * a.dy
    IsBounded (cross, (a + b).scale cross) (2 * k + 3) (3 * k + 5) := by
  intro a b cross
  have ha : a.IsWithin (k + 1) := hstart.sub horigin (by omega)
  have hb : b.IsWithin (k + 1) := hstop.sub horigin (by omega)
  have hcross : IsWithin cross (2 * k + 3) :=
    ((ha.dx.mul hb.dy (by omega)).sub (hb.dx.mul ha.dy (by omega)) (by omega)).mono (by omega)
  exact ⟨hcross, ((ha.add hb (by omega)).scale hcross (by omega)).mono (by omega)⟩

/-- The moment of a ring is bounded, however many points the ring has. Areas are products of two
coordinates and moments of three, and the sums over the segments take the rest. -/
theorem isBounded_ringMoment {ring : LinearRing Float}
    (hring : ∀ p ∈ ring.points, p.IsWithin k) :
    IsBounded (ringMoment origin ring) (2 * k + 56) (3 * k + 58) := by
  unfold ringMoment
  extract_lets step
  have hsum : IsBounded ((segments ring.points).foldl step (Scalar.zero, .zero)) (2 * k + 56)
      (3 * k + 58) := by
    refine List.foldlRecOn (motive := (IsBounded · (2 * k + 56) (3 * k + 58)))
      (segments ring.points) step (.zero _ _) ?_
    intro sum hsum s hs
    obtain ⟨hstart, hstop⟩ := mem_of_mem_segments hs
    have hpart := isBounded_segment horigin hk (hring _ hstart) (hring _ hstop)
    simp only at hpart
    have hnext := IsBounded.add hsum hpart (by omega) (by omega)
    exact hnext
  generalize (segments ring.points).foldl step (Scalar.zero, .zero) = sum at hsum ⊢
  have hsixth : (0 : Nat) < 6 := by norm_num
  have hscaled : IsBounded (sum.1 / Scalar.ofNat 2, sum.2.divide (Scalar.ofNat 6)) (2 * k + 56)
      (3 * k + 58) :=
    ⟨hsum.area.div_ofNat (by omega) two_pos, hsum.moment.divide_ofNat (by omega) hsixth⟩
  simp only
  split
  · exact hscaled.neg
  · exact hscaled

/-- The areas and moments of any number of rings are added and subtracted. -/
theorem isBounded_addMoments {sum : Float × Offset Float}
    (hsum : IsBounded sum (2 * k + 109) (3 * k + 111)) {polygon : Polygon Float}
    (hpolygon : ∀ p ∈ polygon.points, p.IsWithin k) :
    IsBounded (addMoments origin sum polygon) (2 * k + 109) (3 * k + 111) := by
  have hring : ∀ ring ∈ polygon.rings, IsBounded (ringMoment origin ring) (2 * k + 56)
      (3 * k + 58) := by
    intro ring hring
    refine isBounded_ringMoment horigin hk fun p hp => hpolygon p ?_
    rcases List.mem_cons.1 hring with rfl | hring
    · exact List.mem_append_left _ hp
    · exact List.mem_append_right _ (List.mem_flatMap.2 ⟨ring, hring, hp⟩)
  unfold addMoments
  refine List.foldlRecOn (motive := (IsBounded · (2 * k + 109) (3 * k + 111)))
    polygon.interiors _ ?_ ?_
  · exact hsum.add (hring _ (by simp [Polygon.rings])) (by omega) (by omega)
  · intro sum hsum ring hmem
    exact hsum.sub (hring ring (by simp [Polygon.rings, hmem])) (by omega) (by omega)

/-- The moment of any number of polygons is bounded: the sum over the rings takes another 53 powers
of two. -/
theorem isBounded_netMoment {polygons : List (Polygon Float)}
    (hpolygons : ∀ polygon ∈ polygons, ∀ p ∈ polygon.points, p.IsWithin k) :
    IsBounded (netMoment origin polygons) (2 * k + 109) (3 * k + 111) :=
  List.foldlRecOn (motive := (IsBounded · (2 * k + 109) (3 * k + 111))) polygons _ (.zero _ _)
    fun _ hsum polygon hpolygon =>
      isBounded_addMoments horigin hk hsum (hpolygons polygon hpolygon)

end

/-- What counts as an area is not too small to divide by. -/
theorem two_zpow_le_of_not_abs_le {area : Float} (hfin : area.isFinite)
    (h : ¬ Scalar.abs area ≤ (areaTolerance : Float)) :
    (2 : ℚ) ^ (-(52 : Nat) : Int) ≤ value (sizeBits area) := by
  obtain ⟨hsign, hsize⟩ := abs_spec hfin
  have habs : IsNonneg area.abs :=
    isNonneg_of_not_isNegative hsign (hsize ▸ ((isFinite_iff area).1 hfin).le)
  obtain ⟨hsign', hsize'⟩ : isNegative (areaTolerance : Float) = false ∧
      sizeBits (areaTolerance : Float) = powerBits (-52) := by
    decide +kernel
  have htolerance : IsNonneg (areaTolerance : Float) :=
    isNonneg_of_not_isNegative hsign' (hsize' ▸ (powerBits_lt (by norm_num)).le)
  have hlt : ¬ rank area.abs ≤ rank (areaTolerance : Float) :=
    mt (le_iff_rank_le habs.isNaN htolerance.isNaN).2 h
  rw [habs.rank_eq, hsize, htolerance.rank_eq, hsize'] at hlt
  have hle : powerBits (-52) ≤ sizeBits area := by omega
  have hvalue := strictMono_value.monotone hle
  rwa [value_powerBits (by norm_num)] at hvalue

/-- The center of gravity of areas is finite when their coordinates are not larger than `2 ^ 200`.
-/
theorem isFinite_of_mem_areaCentroid? {polygons : List (Polygon Float)}
    (hfin : ∀ polygon ∈ polygons, ∀ p ∈ polygon.points, p.isFinite)
    (hwithin : ∀ polygon ∈ polygons, ∀ p ∈ polygon.points, p.IsWithin 200) {c : Point Float}
    (hc : areaCentroid? Segment.length polygons = some c) : c.isFinite := by
  have hexterior : ∀ {polygon : Polygon Float} {p}, p ∈ polygon.exterior.points →
      p ∈ polygon.points := List.mem_append_left _
  unfold areaCentroid? at hc
  split at hc
  · cases hc
  · next origin horigin =>
    obtain ⟨first, hfirst, hhead⟩ := List.exists_of_findSome?_eq_some horigin
    have hmem := hexterior (List.mem_of_mem_head? hhead)
    have hnet := isBounded_netMoment (hwithin first hfirst origin hmem) (by norm_num) hwithin
    simp only at hc
    split at hc
    · refine isFinite_of_mem_linesCentroid? ?_ ?_ hc
      · simp only [List.forall_mem_map]
        exact fun polygon hpolygon p hp => hfin polygon hpolygon p (hexterior hp)
      · simp only [List.forall_mem_map]
        exact fun polygon hpolygon p hp => hwithin polygon hpolygon p (hexterior hp)
    · next harea =>
      have hlow := two_zpow_le_of_not_abs_le hnet.area.isFinite harea
      have hway := hnet.moment.divide hnet.area.isFinite hlow (by norm_num)
      have horigin := hwithin first hfirst origin hmem
      obtain rfl := Option.some.inj hc
      exact Point.isFinite_mk ((horigin.x.mono (by norm_num)).add hway.dx (by norm_num)).isFinite
        ((horigin.y.mono (by norm_num)).add hway.dy (by norm_num)).isFinite

/-! ## All kinds -/

namespace Geometry

mutual

/-- The coordinates are far enough from the end of the range for what is computed of them. -/
def IsModerate : Geometry Float → Prop
  | .point _ => True
  | .lineString line => ∀ p ∈ line.points, p.HasLowElevation
  | .polygon area => ∀ p ∈ area.points, p.IsWithin 200
  | .multiPoint parts => ∀ p ∈ parts, p.IsWithin 970
  | .multiLineString parts => ∀ line ∈ parts, ∀ p ∈ line.points, p.IsWithin 200
  | .multiPolygon parts => ∀ area ∈ parts, ∀ p ∈ area.points, p.IsWithin 200
  | .collection members => AreModerate members

/-- All members are moderate. -/
def AreModerate : List (Geometry Float) → Prop
  | [] => True
  | member :: rest => IsModerate member ∧ AreModerate rest

end

mutual

/-- Coordinates up to `2 ^ 200` are moderate in geometries of all kinds. -/
theorem isModerate_of_isWithin : (g : Geometry Float) →
    (∀ p ∈ g.points, p.IsWithin 200 ∧ p.HasLowElevation) → g.IsModerate
  | .point p, _ => trivial
  | .lineString line, h => fun p hp => (h p (by simpa using hp)).2
  | .polygon area, h => fun p hp => (h p (by simpa using hp)).1
  | .multiPoint parts, h => fun p hp => (h p (by simpa using hp)).1.mono (by norm_num)
  | .multiLineString parts, h => fun line hline p hp =>
    (h p (by
      rw [points_multiLineString]
      exact List.mem_flatMap.2 ⟨line, hline, hp⟩)).1
  | .multiPolygon parts, h => fun area harea p hp =>
    (h p (by
      rw [points_multiPolygon]
      exact List.mem_flatMap.2 ⟨area, harea, hp⟩)).1
  | .collection members, h => by
    rw [points] at h
    exact areModerate_of_isWithin members h

/-- Members whose points are all within one bound are moderate, whatever their kinds. -/
theorem areModerate_of_isWithin : (members : List (Geometry Float)) →
    (∀ p ∈ memberPoints members, p.IsWithin 200 ∧ p.HasLowElevation) → AreModerate members
  | [], _ => trivial
  | member :: rest, h => by
    rw [memberPoints] at h
    exact ⟨isModerate_of_isWithin member fun p hp => h p (List.mem_append_left _ hp),
      areModerate_of_isWithin rest fun p hp => h p (List.mem_append_right _ hp)⟩

end

mutual

/-- The point that stands for a moderate geometry is finite when the geometry is. -/
theorem isFinite_of_mem_centroid? {c : Point Float} : (g : Geometry Float) → g.IsModerate →
    (∀ p ∈ g.points, p.isFinite) → g.centroidBy? Segment.length = some c → c.isFinite
  | .point p, _, hfin, hc => by
    obtain rfl : p = c := by simpa [centroidBy?] using hc
    exact hfin p (by simp)
  | .lineString line, hlow, hfin, hc => by
    rw [points_lineString] at hfin
    rw [centroidBy?] at hc
    exact isFinite_of_mem_lineCentroid? hfin hlow hc
  | .polygon area, hwithin, hfin, hc => by
    rw [points_polygon] at hfin
    rw [centroidBy?] at hc
    exact isFinite_of_mem_areaCentroid? (by simpa using hfin)
      (by simpa [IsModerate] using hwithin) hc
  | .multiPoint parts, hwithin, _, hc => by
    rw [centroidBy?] at hc
    exact isFinite_of_mem_pointsCentroid? hwithin hc
  | .multiLineString parts, hwithin, hfin, hc => by
    rw [points_multiLineString] at hfin
    rw [centroidBy?] at hc
    refine isFinite_of_mem_linesCentroid? ?_ (List.forall_mem_map.2 hwithin) hc
    rw [List.forall_mem_map]
    exact fun line hline p hp => hfin p (List.mem_flatMap.2 ⟨line, hline, hp⟩)
  | .multiPolygon parts, hwithin, hfin, hc => by
    rw [points_multiPolygon] at hfin
    rw [centroidBy?] at hc
    refine isFinite_of_mem_areaCentroid? ?_ hwithin hc
    exact fun area harea p hp => hfin p (List.mem_flatMap.2 ⟨area, harea, hp⟩)
  | .collection members, hmoderate, hfin, hc => by
    rw [points] at hfin
    rw [centroidBy?] at hc
    exact isFinite_of_mem_firstCentroid? members hmoderate hfin hc

/-- The point of a collection is the one of its first member that has one, so it is finite because
this is. -/
theorem isFinite_of_mem_firstCentroid? {c : Point Float} : (members : List (Geometry Float)) →
    AreModerate members → (∀ p ∈ memberPoints members, p.isFinite) →
    firstCentroidBy? Segment.length members = some c → c.isFinite
  | [], _, _, hc => by simp [firstCentroidBy?] at hc
  | member :: rest, hmoderate, hfin, hc => by
    rw [memberPoints] at hfin
    rw [firstCentroidBy?] at hc
    rcases Option.or_eq_some_iff.1 hc with hc | ⟨-, hc⟩
    · exact isFinite_of_mem_centroid? member hmoderate.1
        (fun p hp => hfin p (List.mem_append_left _ hp)) hc
    · exact isFinite_of_mem_firstCentroid? rest hmoderate.2
        (fun p hp => hfin p (List.mem_append_right _ hp)) hc

end

end Geometry

end Cartouche
