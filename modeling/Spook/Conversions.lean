import Mathlib.Algebra.Order.Ring.Int
import Spook.Fault
import Spook.Lib.CString
import Spook.Lib.Groups

set_option relaxedAutoImplicit false
set_option autoImplicit false

/-!
# Pixel formats

`conversions.c`: loops that convert a buffer of pixels from one format to another. A round of a loop
reads the bytes of a few pixels that share their colour and writes those pixels.

## Main definitions

* `Spook.yuv2rgb`, `rgb2yuv` — the macros `YUV2RGB` and `RGB2YUV`.
* `Spook.uyvy2yuy2`, `iyu12yuy2`, … — the functions of the source.

## Main results

* `Spook.rgb_routes` — RGB does not depend on the way to it.
* `Spook.pictures_inside` — the conversion of a picture stays inside its buffers.

## Notes on the design

The functions count pixels and bytes in `int`s. Their numbers are not cut to 32 bits here, so what is
said of them is about pictures whose length is an `int` in every format: one of `n` pixels has
`3 * n` bytes in RGB, and `3 * n < 2 ^ 31`.
-/

namespace Spook

/-! ## The macros -/

/-- What both macros do at the ends of the range. -/
def clampByte (x : ℤ) : ℤ := min (max x 0) 255

/-- `YUV2RGB`: the bytes of a pixel. -/
def yuv2rgb (y u v : ℤ) : Bytes :=
  let r := y + (v * 2 ^ 10 + v * 2 ^ 8 + v * 2 ^ 7 + v * 2 ^ 4 + v * 2 ^ 3 + v * 2) / 2 ^ 11
  let g := y - (u * 2 ^ 8 + u * 2 ^ 7 + u * 2 ^ 4 + u * 2 ^ 2 + u * 2) / 2 ^ 11 -
    (v * 2 ^ 9 + v * 2 ^ 6 + v * 2 ^ 4 + v * 2 + v) / 2 ^ 11
  let b := y + (u * 2 ^ 11 + u * 2 ^ 5 - u * 2) / 2 ^ 11
  [UInt8.ofNat (clampByte r).toNat, UInt8.ofNat (clampByte g).toNat, UInt8.ofNat (clampByte b).toNat]

/-- `RGB2YUV`. -/
def rgb2yuv (r g b : ℤ) : ℤ × ℤ × ℤ :=
  (clampByte ((9798 * r + 19235 * g + 3736 * b) / 2 ^ 15),
    clampByte ((-4784 * r - 9437 * g + 14221 * b) / 2 ^ 15 + 128),
    clampByte ((20218 * r - 16941 * g - 3277 * b) / 2 ^ 15 + 128))

/-! ## The functions of the source -/

/-- The rounds of a loop `for( i = 0; i < limit; i += step )`. -/
def roundsOf (limit : ℤ) (step : ℕ) : ℕ := (limit.toNat + (step - 1)) / step

/-- A loop that reads `m` bytes and writes `n` bytes in a round, as long as it is below `limit`. -/
def convertPixels (m n : ℕ) (round : (ℕ → UInt8) → Bytes) (limit : ℤ) (src dest : Bytes) :
    Except Fault Bytes :=
  convertLoop .overread .overrun m n (fun group => round fun i => group.getD i 0) src
    (roundsOf limit m) 0 dest

/-- A byte as an `int`. -/
def byteOf (b : UInt8) : ℤ := b.toNat

/-- The byte of a colour difference as an `int`. -/
def chromaOf (b : UInt8) : ℤ := byteOf b - 128

section Functions

variable (src dest : Bytes) (numPixels : ℤ)

/-- `uyvy2yuy2`, which calls `swab`. -/
def uyvy2yuy2 : Except Fault Bytes :=
  convertPixels 2 2 (fun s => [s 1, s 0]) (numPixels * 2) src dest

/-- `yuv2yuy2`, which calls `swab`. -/
def yuv2yuy2 : Except Fault Bytes :=
  convertPixels 2 2 (fun s => [s 1, s 0]) (numPixels * 2) src dest

/-- A round of `y41p2yuyv`: `u0, y0, v0, y1, u4, y2, v4, y3, y4, y5, y6, y7`. -/
def y41p2yuyvRound (s : ℕ → UInt8) : Bytes :=
  [s 1, s 0, s 3, s 2, s 5, s 0, s 7, s 2, s 8, s 4, s 9, s 6, s 10, s 4, s 11, s 6]

/-- `y41p2yuyv`. -/
def y41p2yuyv : Except Fault Bytes :=
  convertPixels 12 16 y41p2yuyvRound (numPixels * 2) src dest

/-- A round of `iyu12yuy2`: `u, y0, y1, v, y2, y3`. -/
def iyu12yuy2Round (s : ℕ → UInt8) : Bytes := [s 1, s 0, s 2, s 3, s 4, s 0, s 5, s 3]

/-- `iyu12yuy2`. -/
def iyu12yuy2 : Except Fault Bytes :=
  convertPixels 6 8 iyu12yuy2Round (numPixels + numPixels / 2) src dest

/-- A round of `iyu22yuy2`: `u0, y0, v0, u1, y1, v1`. -/
def iyu22yuy2Round (s : ℕ → UInt8) : Bytes :=
  [s 1, UInt8.ofNat (((s 0).toNat + (s 3).toNat) / 2), s 4,
    UInt8.ofNat (((s 2).toNat + (s 5).toNat) / 2)]

/-- `iyu22yuy2`. -/
def iyu22yuy2 : Except Fault Bytes :=
  convertPixels 6 4 iyu22yuy2Round (numPixels + numPixels * 2) src dest

/-- `y2yuy2`. -/
def y2yuy2 : Except Fault Bytes :=
  convertPixels 2 4 (fun s => [s 0, 128, s 1, 128]) numPixels src dest

/-- A round of `rgb2yuy2`. -/
def rgb2yuy2Round (s : ℕ → UInt8) : Bytes :=
  let (y0, u0, v0) := rgb2yuv (byteOf (s 0)) (byteOf (s 1)) (byteOf (s 2))
  let (y1, u1, v1) := rgb2yuv (byteOf (s 3)) (byteOf (s 4)) (byteOf (s 5))
  [UInt8.ofNat y0.toNat, UInt8.ofNat ((u0 + u1) / 2).toNat, UInt8.ofNat y1.toNat,
    UInt8.ofNat ((v0 + v1) / 2).toNat]

/-- `rgb2yuy2`. -/
def rgb2yuy2 : Except Fault Bytes :=
  convertPixels 6 4 rgb2yuy2Round (numPixels + numPixels * 2) src dest

/-- A round of `uyvy2rgb`. -/
def uyvy2rgbRound (s : ℕ → UInt8) : Bytes :=
  yuv2rgb (byteOf (s 1)) (chromaOf (s 0)) (chromaOf (s 2)) ++
    yuv2rgb (byteOf (s 3)) (chromaOf (s 0)) (chromaOf (s 2))

/-- `uyvy2rgb`. -/
def uyvy2rgb : Except Fault Bytes := convertPixels 4 6 uyvy2rgbRound (numPixels * 2) src dest

/-- A round of `yuy22rgb`. -/
def yuy22rgbRound (s : ℕ → UInt8) : Bytes :=
  yuv2rgb (byteOf (s 0)) (chromaOf (s 1)) (chromaOf (s 3)) ++
    yuv2rgb (byteOf (s 2)) (chromaOf (s 1)) (chromaOf (s 3))

/-- `yuy22rgb`. -/
def yuy22rgb : Except Fault Bytes := convertPixels 4 6 yuy22rgbRound (numPixels * 2) src dest

/-- A round of `iyu12rgb`. -/
def iyu12rgbRound (s : ℕ → UInt8) : Bytes :=
  let pixel i := yuv2rgb (byteOf (s i)) (chromaOf (s 0)) (chromaOf (s 3))
  pixel 1 ++ (pixel 2 ++ (pixel 4 ++ pixel 5))

/-- `iyu12rgb`. -/
def iyu12rgb : Except Fault Bytes :=
  convertPixels 6 12 iyu12rgbRound (numPixels + numPixels / 2) src dest

/-- A round of `iyu22rgb`. -/
def iyu22rgbRound (s : ℕ → UInt8) : Bytes :=
  yuv2rgb (byteOf (s 1)) (chromaOf (s 0)) (chromaOf (s 2)) ++
    yuv2rgb (byteOf (s 4)) (chromaOf (s 3)) (chromaOf (s 5))

/-- `iyu22rgb`. -/
def iyu22rgb : Except Fault Bytes :=
  convertPixels 6 6 iyu22rgbRound (numPixels + numPixels * 2) src dest

/-- `y2rgb`. -/
def y2rgb : Except Fault Bytes :=
  convertPixels 1 3 (fun s => yuv2rgb (byteOf (s 0)) 0 0) numPixels src dest

end Functions

/-! ## One conversion after the other -/

section Routes

variable {m n k : ℕ} {round : (ℕ → UInt8) → Bytes} {limit : ℤ} {src mid dest : Bytes}

/-- A round on the bytes of a group. -/
def onGroup (round : (ℕ → UInt8) → Bytes) (group : Bytes) : Bytes := round fun i => group.getD i 0

/-- What a loop leaves when the buffers are long enough. -/
theorem convertPixels_eq (hround : ∀ s, (round s).length = n) (hk : roundsOf limit m = k)
    (hsrc : k * m ≤ src.length) (hdest : k * n ≤ dest.length) :
    convertPixels m n round limit src dest =
      .ok (mapGroups m (onGroup round) k src ++ dest.drop (k * n)) := by
  unfold convertPixels
  rw [hk]
  exact convertLoop_eq (fun _ _ => hround _) hsrc hdest

/-- A loop leaves its buffers unless they are long enough. -/
theorem convertPixels_ok_iff (hround : ∀ s, (round s).length = n) (hk : roundsOf limit m = k) :
    (∃ dest', convertPixels m n round limit src dest = .ok dest') ↔
      k = 0 ∨ k * m ≤ src.length ∧ k * n ≤ dest.length := by
  unfold convertPixels
  rw [hk]
  exact convertLoop_ok_iff (fun _ _ => hround _) k dest

/-- RGB of groups each of which is `2 * j` pixels of YUY2. -/
theorem yuy22rgb_groups {j : ℕ} {f : Bytes → Bytes} (hf : ∀ g, g.length = m → (f g).length = j * 4)
    (hsrc : k * m ≤ src.length) (hdest : k * (j * 6) ≤ dest.length) {numPixels : ℕ}
    (hpixels : numPixels = 2 * (k * j)) (rest : Bytes) :
    yuy22rgb (mapGroups m f k src ++ rest) dest numPixels =
      .ok (mapGroups m (fun g => mapGroups 4 (onGroup yuy22rgbRound) j (f g)) k src ++
        dest.drop (k * (j * 6))) := by
  have hlen : (mapGroups m f k src).length = k * (j * 4) := length_mapGroups hf hsrc
  have hrounds : roundsOf (numPixels * 2) 4 = k * j := by
    unfold roundsOf
    omega
  have hrgb : ∀ s, (yuy22rgbRound s).length = 6 := fun _ => rfl
  rw [yuy22rgb, convertPixels_eq hrgb hrounds (by simp [hlen, Nat.mul_assoc])
      (by rw [Nat.mul_assoc]; exact hdest), mapGroups_mul, mapGroups_append hlen.ge,
    mapGroups_mapGroups hf hsrc, Nat.mul_assoc]

/-- A group of two bytes. -/
theorem exists_two {g : Bytes} (h : g.length = 2) : ∃ a b, g = [a, b] := List.length_eq_two.1 h

/-- A group of four bytes. -/
theorem exists_four {g : Bytes} (h : g.length = 4) : ∃ a b c d, g = [a, b, c, d] := by
  rcases g with _ | ⟨a, _ | ⟨b, g⟩⟩
  · cases h
  · cases h
  · obtain ⟨c, d, rfl⟩ := exists_two (g := g) (by simpa using h)
    exact ⟨a, b, c, d, rfl⟩

/-- A group of six bytes. -/
theorem exists_six {g : Bytes} (h : g.length = 6) : ∃ a b c d e f, g = [a, b, c, d, e, f] := by
  rcases g with _ | ⟨a, _ | ⟨b, g⟩⟩
  · cases h
  · cases h
  · obtain ⟨c, d, e, f, rfl⟩ := exists_four (g := g) (by simpa using h)
    exact ⟨a, b, c, d, e, f, rfl⟩

/-- UYVY by way of YUY2: the swap of the bytes is undone group by group. -/
theorem uyvy_route (hsrc : 4 * k ≤ src.length) (hmid : 4 * k ≤ mid.length)
    (hdest : 6 * k ≤ dest.length) :
    (uyvy2yuy2 src mid (2 * k : ℕ) >>= fun yuy2 => yuy22rgb yuy2 dest (2 * k : ℕ)) =
      uyvy2rgb src dest (2 * k : ℕ) := by
  let swap : Bytes → Bytes := onGroup fun s => [s 1, s 0]
  have hswap : ∀ g : Bytes, g.length = 4 → (mapGroups 2 swap 2 g).length = 1 * 4 :=
    fun g hg => length_mapGroups (m := 2) (n := 2) (k := 2) (fun _ _ => rfl) hg.ge
  have hgroup : ∀ g : Bytes, g.length = 4 →
      mapGroups 4 (onGroup yuy22rgbRound) 1 (mapGroups 2 swap 2 g) = onGroup uyvy2rgbRound g := by
    intro g hg
    obtain ⟨a, b, c, d, rfl⟩ := exists_four hg
    rfl
  have hyuy2 : uyvy2yuy2 src mid (2 * k : ℕ) =
      .ok (mapGroups 4 (mapGroups 2 swap 2) k src ++ mid.drop (k * 2 * 2)) := by
    have h : uyvy2yuy2 src mid (2 * k : ℕ) = .ok (mapGroups 2 swap (k * 2) src ++ _) :=
      convertPixels_eq (fun _ => rfl) (by unfold roundsOf; omega) (by omega) (by omega)
    rwa [mapGroups_mul] at h
  have hdirect : uyvy2rgb src dest (2 * k : ℕ) = _ :=
    convertPixels_eq (n := 6) (k := k) (fun _ => rfl) (by unfold roundsOf; omega) (by omega) (by omega)
  rw [hyuy2, ok_bind, yuy22rgb_groups (j := 1) hswap (by omega) (by omega) (by omega), hdirect,
    mapGroups_congr hgroup (by omega)]

/-- IYU1 by way of YUY2. -/
theorem iyu12_route (hsrc : 6 * k ≤ src.length) (hmid : 8 * k ≤ mid.length)
    (hdest : 12 * k ≤ dest.length) :
    (iyu12yuy2 src mid (4 * k : ℕ) >>= fun yuy2 => yuy22rgb yuy2 dest (4 * k : ℕ)) =
      iyu12rgb src dest (4 * k : ℕ) := by
  have hgroup : ∀ g : Bytes, g.length = 6 →
      mapGroups 4 (onGroup yuy22rgbRound) 2 (onGroup iyu12yuy2Round g) = onGroup iyu12rgbRound g := by
    intro g hg
    obtain ⟨a, b, c, d, e, f, rfl⟩ := exists_six hg
    rfl
  have hyuy2 : iyu12yuy2 src mid (4 * k : ℕ) = _ :=
    convertPixels_eq (n := 8) (k := k) (fun _ => rfl) (by unfold roundsOf; omega) (by omega) (by omega)
  have hdirect : iyu12rgb src dest (4 * k : ℕ) = _ :=
    convertPixels_eq (n := 12) (k := k) (fun _ => rfl) (by unfold roundsOf; omega) (by omega)
      (by omega)
  rw [hyuy2, ok_bind, yuy22rgb_groups (j := 2) (fun _ _ => rfl) (by omega) (by omega) (by omega),
    hdirect, mapGroups_congr hgroup (by omega)]

/-- Grey by way of YUY2. -/
theorem y_route (hsrc : 2 * k ≤ src.length) (hmid : 4 * k ≤ mid.length)
    (hdest : 6 * k ≤ dest.length) :
    (y2yuy2 src mid (2 * k : ℕ) >>= fun yuy2 => yuy22rgb yuy2 dest (2 * k : ℕ)) =
      y2rgb src dest (2 * k : ℕ) := by
  let pixel : Bytes → Bytes := onGroup fun s => yuv2rgb (byteOf (s 0)) 0 0
  have hgroup : ∀ g : Bytes, g.length = 2 →
      mapGroups 4 (onGroup yuy22rgbRound) 1 (onGroup (fun s => [s 0, 128, s 1, 128]) g) =
        mapGroups 1 pixel 2 g := by
    intro g hg
    obtain ⟨a, b, rfl⟩ := exists_two hg
    have hgrey : chromaOf 128 = 0 := by decide
    have hpixels : mapGroups 4 (onGroup yuy22rgbRound) 1
        (onGroup (fun s => [s 0, 128, s 1, 128]) [a, b]) =
        yuv2rgb (byteOf a) (chromaOf 128) (chromaOf 128) ++
          yuv2rgb (byteOf b) (chromaOf 128) (chromaOf 128) ++ [] := rfl
    rw [hpixels, hgrey, List.append_assoc]
    rfl
  have hyuy2 : y2yuy2 src mid (2 * k : ℕ) = _ :=
    convertPixels_eq (n := 4) (k := k) (fun _ => rfl) (by unfold roundsOf; omega) (by omega) (by omega)
  have hdirect : y2rgb src dest (2 * k : ℕ) =
      .ok (mapGroups 2 (mapGroups 1 pixel 2) k src ++ dest.drop (k * 2 * 3)) := by
    have h : y2rgb src dest (2 * k : ℕ) = .ok (mapGroups 1 pixel (k * 2) src ++ _) :=
      convertPixels_eq (fun _ => rfl) (by unfold roundsOf; omega) (by omega) (by omega)
    rwa [mapGroups_mul] at h
  rw [hyuy2, ok_bind, yuy22rgb_groups (j := 1) (fun _ _ => rfl) (by omega) (by omega) (by omega),
    hdirect, mapGroups_congr hgroup (by omega), Nat.mul_assoc]

end Routes

/-- **RGB does not depend on the way to it.** Pixels in UYVY, in YUV with one colour for four of them
and in shades of grey become the same RGB when they are converted at once and when they are
converted to YUY2 first. The functions of the source count with `int`s, so this is about pictures
with `12 * k < 2 ^ 31`, whose bytes in RGB an `int` can count. -/
theorem rgb_routes (k : ℕ) (src mid dest : Bytes) (hsrc : 6 * k ≤ src.length)
    (hmid : 8 * k ≤ mid.length) (hdest : 12 * k ≤ dest.length) :
    (uyvy2yuy2 src mid (2 * k : ℕ) >>= fun yuy2 => yuy22rgb yuy2 dest (2 * k : ℕ)) =
        uyvy2rgb src dest (2 * k : ℕ) ∧
      (iyu12yuy2 src mid (4 * k : ℕ) >>= fun yuy2 => yuy22rgb yuy2 dest (4 * k : ℕ)) =
        iyu12rgb src dest (4 * k : ℕ) ∧
      (y2yuy2 src mid (2 * k : ℕ) >>= fun yuy2 => yuy22rgb yuy2 dest (2 * k : ℕ)) =
        y2rgb src dest (2 * k : ℕ) :=
  ⟨uyvy_route (by omega) (by omega) (by omega), iyu12_route hsrc hmid hdest,
    y_route (by omega) (by omega) (by omega)⟩

/-- A few pixels of each format, in buffers that are longer. -/
theorem rgb_routes_four :
    (uyvy2yuy2 (List.replicate 7 90) (List.replicate 9 0) (2 : ℕ) >>= fun yuy2 =>
        yuy22rgb yuy2 (List.replicate 12 0) (2 : ℕ)) =
        uyvy2rgb (List.replicate 7 90) (List.replicate 12 0) (2 : ℕ) ∧
      (iyu12yuy2 (List.replicate 7 90) (List.replicate 9 0) (4 : ℕ) >>= fun yuy2 =>
        yuy22rgb yuy2 (List.replicate 12 0) (4 : ℕ)) =
        iyu12rgb (List.replicate 7 90) (List.replicate 12 0) (4 : ℕ) ∧
      (y2yuy2 (List.replicate 7 90) (List.replicate 9 0) (2 : ℕ) >>= fun yuy2 =>
        yuy22rgb yuy2 (List.replicate 12 0) (2 : ℕ)) =
        y2rgb (List.replicate 7 90) (List.replicate 12 0) (2 : ℕ) :=
  rgb_routes 1 (List.replicate 7 90) (List.replicate 9 0) (List.replicate 12 0) (by decide)
    (by decide) (by decide)

/-! ## Shades of grey -/

/-- Pixels in shades of grey. -/
def greyPixels (xs : List (UInt8 × UInt8)) : Bytes :=
  xs.flatMap fun x => [x.1, x.1, x.1, x.2, x.2, x.2]

/-- A byte, as a number and back. -/
theorem ofNat_byteOf (x : UInt8) : UInt8.ofNat (byteOf x).toNat = x := by
  simp [byteOf]

/-- A grey pixel has no colour, and keeps its shade. -/
theorem rgb2yuv_grey (x : UInt8) : rgb2yuv (byteOf x) (byteOf x) (byteOf x) = (byteOf x, 128, 128) := by
  have hx := x.toNat_lt
  unfold rgb2yuv clampByte byteOf
  rw [Prod.mk.injEq, Prod.mk.injEq]
  refine ⟨?_, ?_, ?_⟩ <;> omega

/-- Without colour all three are the brightness. -/
theorem yuv2rgb_grey (x : UInt8) : yuv2rgb (byteOf x) 0 0 = [x, x, x] := by
  have hx := x.toNat_lt
  have hclamp : clampByte (byteOf x) = x.toNat := by
    unfold clampByte byteOf
    omega
  simp [yuv2rgb, hclamp]

/-- **Shades of grey are kept** on the way from RGB to YUY2 and back. -/
theorem grey_kept (xs : List (UInt8 × UInt8)) (mid dest : Bytes) (hmid : mid.length = 4 * xs.length)
    (hdest : dest.length = 6 * xs.length) :
    (rgb2yuy2 (greyPixels xs) mid (2 * xs.length : ℕ) >>= fun yuy2 =>
      yuy22rgb yuy2 dest (2 * xs.length : ℕ)) = .ok (greyPixels xs) := by
  have hlen : (greyPixels xs).length = 6 * xs.length := by
    simp [greyPixels, List.length_flatMap, Nat.mul_comm]
  have hyuy2 : rgb2yuy2 (greyPixels xs) mid (2 * xs.length : ℕ) = _ :=
    convertPixels_eq (n := 4) (k := xs.length) (fun _ => rfl) (by unfold roundsOf; omega) (by omega)
      (by omega)
  rw [hyuy2, ok_bind, yuy22rgb_groups (j := 1) (fun _ _ => rfl) (by omega) (by omega) (by omega),
    List.drop_eq_nil_of_le (by omega), List.append_nil]
  congr 1
  clear hlen hyuy2 hmid hdest
  induction xs with
  | nil => rfl
  | cons x xs ih =>
    have hround : onGroup rgb2yuy2Round [x.1, x.1, x.1, x.2, x.2, x.2] = [x.1, 128, x.2, 128] := by
      simp [onGroup, rgb2yuy2Round, rgb2yuv_grey, ofNat_byteOf]
    have hsix : [x.1, x.1, x.1, x.2, x.2, x.2].length = 6 := rfl
    have hpixels : mapGroups 4 (onGroup yuy22rgbRound) 1 [x.1, 128, x.2, 128] =
        yuv2rgb (byteOf x.1) 0 0 ++ yuv2rgb (byteOf x.2) 0 0 ++ [] := by
      have hgrey : chromaOf 128 = 0 := by decide
      rw [← hgrey]
      rfl
    rw [List.length_cons, greyPixels, List.flatMap_cons, ← greyPixels, mapGroups,
      List.take_left' hsix, List.drop_left' hsix, ih, hround, hpixels, yuv2rgb_grey, yuv2rgb_grey]
    rfl

/-! ## Whole pictures -/

/-- The conversion of a picture of `numPixels` pixels, which takes `a` bytes before and `b` bytes
after it, stays inside both buffers. -/
def StaysInside (convert : Bytes → Bytes → ℤ → Except Fault Bytes) (a b numPixels : ℕ) : Prop :=
  ∀ src dest : Bytes, src.length = a → dest.length = b →
    ∃ dest', convert src dest numPixels = .ok dest'

/-- A conversion that goes through groups stays inside buffers with room for all groups. -/
theorem staysInside_of_rounds {m n k a b numPixels : ℕ} {round : (ℕ → UInt8) → Bytes} {limit : ℤ → ℤ}
    (hround : ∀ s, (round s).length = n) (hk : roundsOf (limit numPixels) m = k)
    (hsrc : k * m ≤ a) (hdest : k * n ≤ b) :
    StaysInside (fun src dest numPixels => convertPixels m n round (limit numPixels) src dest) a b
      numPixels := by
  rintro src dest rfl rfl
  exact (convertPixels_ok_iff hround hk).2 (.inr ⟨hsrc, hdest⟩)

/-- `y41p2yuyv` counts the bytes of its result where it should count those of the picture. -/
theorem y41p2yuyv_leaves (k : ℕ) :
    ¬ StaysInside y41p2yuyv (12 * (k + 1)) (16 * (k + 1)) (8 * (k + 1)) := by
  intro h
  have hok := h (List.replicate (12 * (k + 1)) 0) (List.replicate (16 * (k + 1)) 0) (by simp) (by simp)
  have hround : ∀ s, (y41p2yuyvRound s).length = 16 := fun _ => rfl
  unfold y41p2yuyv at hok
  have hrounds := (convertPixels_ok_iff hround rfl).1 hok
  simp only [roundsOf, List.length_replicate] at hrounds
  omega

/-- **Whole pictures.** The conversion of a picture stays inside the picture and the buffer of the
result when there are eight pixels or a multiple of them, with the exception of `y41p2yuyv`. The
functions of the source count with `int`s, so this is about pictures with `24 * (k + 1) < 2 ^ 31`,
whose bytes in RGB an `int` can count. -/
theorem pictures_inside (k : ℕ) :
    StaysInside uyvy2yuy2 (16 * (k + 1)) (16 * (k + 1)) (8 * (k + 1)) ∧
      StaysInside yuv2yuy2 (16 * (k + 1)) (16 * (k + 1)) (8 * (k + 1)) ∧
      StaysInside iyu12yuy2 (12 * (k + 1)) (16 * (k + 1)) (8 * (k + 1)) ∧
      StaysInside iyu22yuy2 (24 * (k + 1)) (16 * (k + 1)) (8 * (k + 1)) ∧
      StaysInside y2yuy2 (8 * (k + 1)) (16 * (k + 1)) (8 * (k + 1)) ∧
      StaysInside rgb2yuy2 (24 * (k + 1)) (16 * (k + 1)) (8 * (k + 1)) ∧
      StaysInside uyvy2rgb (16 * (k + 1)) (24 * (k + 1)) (8 * (k + 1)) ∧
      StaysInside yuy22rgb (16 * (k + 1)) (24 * (k + 1)) (8 * (k + 1)) ∧
      StaysInside iyu12rgb (12 * (k + 1)) (24 * (k + 1)) (8 * (k + 1)) ∧
      StaysInside iyu22rgb (24 * (k + 1)) (24 * (k + 1)) (8 * (k + 1)) ∧
      StaysInside y2rgb (8 * (k + 1)) (24 * (k + 1)) (8 * (k + 1)) ∧
      ¬ StaysInside y41p2yuyv (12 * (k + 1)) (16 * (k + 1)) (8 * (k + 1)) := by
  refine ⟨?_, ?_, ?_, ?_, ?_, ?_, ?_, ?_, ?_, ?_, ?_, y41p2yuyv_leaves k⟩ <;>
    exact staysInside_of_rounds (fun _ => rfl) rfl (by unfold roundsOf; omega)
      (by unfold roundsOf; omega)

end Spook
