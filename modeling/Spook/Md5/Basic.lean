import Spook.Fault
import Spook.Lib.Buffer
import Spook.Lib.CString

set_option relaxedAutoImplicit false
set_option autoImplicit false

/-!
# The MD5 functions

`md5.c` as it is compiled for a little-endian machine, on which `byteReverse` does nothing. What is
copied out of a buffer or into `in` is checked against its end.

## Main definitions

* `Spook.MD5Context` — the structure of the same name.
* `Spook.md5Init`, `md5Update`, `md5Final`, `md5Transform` — the functions of the same names.
-/

namespace Spook

/-! ## Words -/

/-- `u32 buf[4]`. -/
structure Md5Words where
  a : UInt32
  b : UInt32
  c : UInt32
  d : UInt32
  deriving DecidableEq

/-- The bytes of a word in memory. -/
def le32 (w : UInt32) : Bytes :=
  [w.toUInt8, (w >>> 8).toUInt8, (w >>> 16).toUInt8, (w >>> 24).toUInt8]

/-- The bytes of the four words in memory. -/
def Md5Words.bytes (s : Md5Words) : Bytes := le32 s.a ++ (le32 s.b ++ (le32 s.c ++ le32 s.d))

/-- `((u32 *)in)[i]`. -/
def wordAt (b : Bytes) (i : ℕ) : UInt32 :=
  (b.getD (4 * i) 0).toUInt32 ||| (b.getD (4 * i + 1) 0).toUInt32 <<< 8 |||
    (b.getD (4 * i + 2) 0).toUInt32 <<< 16 ||| (b.getD (4 * i + 3) 0).toUInt32 <<< 24

/-- `struct MD5Context`. -/
structure MD5Context where
  buf : Md5Words
  bits0 : UInt32
  bits1 : UInt32
  /-- `in`. -/
  inBytes : Bytes
  deriving DecidableEq

/-! ## The transformation -/

/-- `F1`. -/
def md5F1 (x y z : UInt32) : UInt32 := z ^^^ (x &&& (y ^^^ z))

/-- `F2`. -/
def md5F2 (x y z : UInt32) : UInt32 := md5F1 z x y

/-- `F3`. -/
def md5F3 (x y z : UInt32) : UInt32 := x ^^^ y ^^^ z

/-- `F4`. -/
def md5F4 (x y z : UInt32) : UInt32 := y ^^^ (x ||| ~~~z)

/-- `MD5STEP`: the new value of `w`. -/
def md5Step (f : UInt32 → UInt32 → UInt32 → UInt32) (w x y z data s : UInt32) : UInt32 :=
  let w := w + (f x y z + data)
  let w := w <<< s ||| w >>> (32 - s)
  w + x

namespace Md5Words

variable (s : Md5Words) (f : UInt32 → UInt32 → UInt32 → UInt32) (data shift : UInt32)

/-- `MD5STEP( f, a, b, c, d, data, shift )`. -/
def stepA : Md5Words := { s with a := md5Step f s.a s.b s.c s.d data shift }

/-- `MD5STEP( f, d, a, b, c, data, shift )`. -/
def stepD : Md5Words := { s with d := md5Step f s.d s.a s.b s.c data shift }

/-- `MD5STEP( f, c, d, a, b, data, shift )`. -/
def stepC : Md5Words := { s with c := md5Step f s.c s.d s.a s.b data shift }

/-- `MD5STEP( f, b, c, d, a, data, shift )`. -/
def stepB : Md5Words := { s with b := md5Step f s.b s.c s.d s.a data shift }

end Md5Words

/-- The steps of `MD5Transform` with `F1`. -/
def md5Steps1 (inp : ℕ → UInt32) (s : Md5Words) : Md5Words :=
  let s := s.stepA md5F1 (inp 0 + 0xd76aa478) 7
  let s := s.stepD md5F1 (inp 1 + 0xe8c7b756) 12
  let s := s.stepC md5F1 (inp 2 + 0x242070db) 17
  let s := s.stepB md5F1 (inp 3 + 0xc1bdceee) 22
  let s := s.stepA md5F1 (inp 4 + 0xf57c0faf) 7
  let s := s.stepD md5F1 (inp 5 + 0x4787c62a) 12
  let s := s.stepC md5F1 (inp 6 + 0xa8304613) 17
  let s := s.stepB md5F1 (inp 7 + 0xfd469501) 22
  let s := s.stepA md5F1 (inp 8 + 0x698098d8) 7
  let s := s.stepD md5F1 (inp 9 + 0x8b44f7af) 12
  let s := s.stepC md5F1 (inp 10 + 0xffff5bb1) 17
  let s := s.stepB md5F1 (inp 11 + 0x895cd7be) 22
  let s := s.stepA md5F1 (inp 12 + 0x6b901122) 7
  let s := s.stepD md5F1 (inp 13 + 0xfd987193) 12
  let s := s.stepC md5F1 (inp 14 + 0xa679438e) 17
  let s := s.stepB md5F1 (inp 15 + 0x49b40821) 22
  s

/-- The steps of `MD5Transform` with `F2`. -/
def md5Steps2 (inp : ℕ → UInt32) (s : Md5Words) : Md5Words :=
  let s := s.stepA md5F2 (inp 1 + 0xf61e2562) 5
  let s := s.stepD md5F2 (inp 6 + 0xc040b340) 9
  let s := s.stepC md5F2 (inp 11 + 0x265e5a51) 14
  let s := s.stepB md5F2 (inp 0 + 0xe9b6c7aa) 20
  let s := s.stepA md5F2 (inp 5 + 0xd62f105d) 5
  let s := s.stepD md5F2 (inp 10 + 0x02441453) 9
  let s := s.stepC md5F2 (inp 15 + 0xd8a1e681) 14
  let s := s.stepB md5F2 (inp 4 + 0xe7d3fbc8) 20
  let s := s.stepA md5F2 (inp 9 + 0x21e1cde6) 5
  let s := s.stepD md5F2 (inp 14 + 0xc33707d6) 9
  let s := s.stepC md5F2 (inp 3 + 0xf4d50d87) 14
  let s := s.stepB md5F2 (inp 8 + 0x455a14ed) 20
  let s := s.stepA md5F2 (inp 13 + 0xa9e3e905) 5
  let s := s.stepD md5F2 (inp 2 + 0xfcefa3f8) 9
  let s := s.stepC md5F2 (inp 7 + 0x676f02d9) 14
  let s := s.stepB md5F2 (inp 12 + 0x8d2a4c8a) 20
  s

/-- The steps of `MD5Transform` with `F3`. -/
def md5Steps3 (inp : ℕ → UInt32) (s : Md5Words) : Md5Words :=
  let s := s.stepA md5F3 (inp 5 + 0xfffa3942) 4
  let s := s.stepD md5F3 (inp 8 + 0x8771f681) 11
  let s := s.stepC md5F3 (inp 11 + 0x6d9d6122) 16
  let s := s.stepB md5F3 (inp 14 + 0xfde5380c) 23
  let s := s.stepA md5F3 (inp 1 + 0xa4beea44) 4
  let s := s.stepD md5F3 (inp 4 + 0x4bdecfa9) 11
  let s := s.stepC md5F3 (inp 7 + 0xf6bb4b60) 16
  let s := s.stepB md5F3 (inp 10 + 0xbebfbc70) 23
  let s := s.stepA md5F3 (inp 13 + 0x289b7ec6) 4
  let s := s.stepD md5F3 (inp 0 + 0xeaa127fa) 11
  let s := s.stepC md5F3 (inp 3 + 0xd4ef3085) 16
  let s := s.stepB md5F3 (inp 6 + 0x04881d05) 23
  let s := s.stepA md5F3 (inp 9 + 0xd9d4d039) 4
  let s := s.stepD md5F3 (inp 12 + 0xe6db99e5) 11
  let s := s.stepC md5F3 (inp 15 + 0x1fa27cf8) 16
  let s := s.stepB md5F3 (inp 2 + 0xc4ac5665) 23
  s

/-- The steps of `MD5Transform` with `F4`. -/
def md5Steps4 (inp : ℕ → UInt32) (s : Md5Words) : Md5Words :=
  let s := s.stepA md5F4 (inp 0 + 0xf4292244) 6
  let s := s.stepD md5F4 (inp 7 + 0x432aff97) 10
  let s := s.stepC md5F4 (inp 14 + 0xab9423a7) 15
  let s := s.stepB md5F4 (inp 5 + 0xfc93a039) 21
  let s := s.stepA md5F4 (inp 12 + 0x655b59c3) 6
  let s := s.stepD md5F4 (inp 3 + 0x8f0ccc92) 10
  let s := s.stepC md5F4 (inp 10 + 0xffeff47d) 15
  let s := s.stepB md5F4 (inp 1 + 0x85845dd1) 21
  let s := s.stepA md5F4 (inp 8 + 0x6fa87e4f) 6
  let s := s.stepD md5F4 (inp 15 + 0xfe2ce6e0) 10
  let s := s.stepC md5F4 (inp 6 + 0xa3014314) 15
  let s := s.stepB md5F4 (inp 13 + 0x4e0811a1) 21
  let s := s.stepA md5F4 (inp 4 + 0xf7537e82) 6
  let s := s.stepD md5F4 (inp 11 + 0xbd3af235) 10
  let s := s.stepC md5F4 (inp 2 + 0x2ad7d2bb) 15
  let s := s.stepB md5F4 (inp 9 + 0xeb86d391) 21
  s

/-- `MD5Transform`. -/
def md5Transform (buf : Md5Words) (inp : ℕ → UInt32) : Md5Words :=
  let s := md5Steps4 inp (md5Steps3 inp (md5Steps2 inp (md5Steps1 inp buf)))
  ⟨buf.a + s.a, buf.b + s.b, buf.c + s.c, buf.d + s.d⟩

namespace MD5Context

/-- `MD5Transform( ctx->buf, (u32 *)ctx->in )`. -/
def transform (ctx : MD5Context) : MD5Context :=
  { ctx with buf := md5Transform ctx.buf (wordAt ctx.inBytes) }

/-- Some bytes are copied to `in + i`. -/
def store (ctx : MD5Context) (i : ℕ) (b : Bytes) : Except Fault MD5Context := do
  let inBytes ← storeIn .overrun ctx.inBytes i b
  return { ctx with inBytes }

end MD5Context

/-! ## The interface -/

/-- `MD5Init`, which leaves `in` alone. -/
def md5Init (ctx : MD5Context) : MD5Context :=
  { ctx with buf := ⟨0x67452301, 0xefcdab89, 0x98badcfe, 0x10325476⟩, bits0 := 0, bits1 := 0 }

/-- The loop of `MD5Update` over 64-byte chunks, the first argument bounding its iterations; with
what is left of `buf` and `len`. -/
def md5Chunks : ℕ → MD5Context → Bytes → ℕ → Except Fault (MD5Context × Bytes × ℕ)
  | 0, ctx, buf, len => if 64 ≤ len then .error .loop else .ok (ctx, buf, len)
  | fuel + 1, ctx, buf, len =>
    if 64 ≤ len then do
      let chunk ← loadIn .overread buf 0 64
      let ctx ← ctx.store 0 chunk
      md5Chunks fuel ctx.transform (buf.drop 64) (len - 64)
    else .ok (ctx, buf, len)

/-- The leading odd-sized chunk, when `t` bytes are in `in` already; with what is left of `buf` and
`len`. -/
def md5Leading (ctx : MD5Context) (t : ℕ) (buf : Bytes) (len : ℕ) :
    Except Fault (MD5Context × Bytes × ℕ) :=
  if t = 0 then .ok (ctx, buf, len)
  else do
    let chunk ← loadIn .overread buf 0 (64 - t)
    let ctx ← ctx.store t chunk
    return (ctx.transform, buf.drop (64 - t), len - (64 - t))

/-- `MD5Update`. -/
def md5Update (ctx : MD5Context) (buf : Bytes) (len : UInt32) : Except Fault MD5Context := do
  -- Update bitcount
  let t := ctx.bits0
  let bits0 := t + len <<< 3
  let carry := if bits0 < t then ctx.bits1 + 1 else ctx.bits1
  let ctx := { ctx with bits0 := bits0, bits1 := carry + len >>> 29 }
  -- Bytes already in shsInfo->data
  let t := (t >>> 3 &&& 0x3f).toNat
  let len := len.toNat
  if t ≠ 0 ∧ len < 64 - t then
    let chunk ← loadIn .overread buf 0 len
    ctx.store t chunk
  else
    -- Handle any leading odd-sized chunks
    let (ctx, buf, len) ← md5Leading ctx t buf len
    -- Process data in 64-byte chunks
    let (ctx, buf, len) ← md5Chunks len ctx buf len
    -- Handle any remaining bytes of data.
    let rest ← loadIn .overread buf 0 len
    ctx.store 0 rest

/-- `MD5Final` up to the length: the block is padded to 56 bytes, behind `count` bytes that are in it. -/
def md5Padding (ctx : MD5Context) (count : ℕ) : Except Fault MD5Context := do
  -- Set the first char of padding to 0x80
  let ctx ← ctx.store count [0x80]
  let p := count + 1
  -- Bytes of padding needed to make 64 bytes
  let count := 64 - 1 - count
  if count < 8 then
    -- Two lots of padding:  Pad the first block to 64 bytes
    let ctx ← ctx.store p (List.replicate count 0)
    -- Now fill the next block with 56 bytes
    ctx.transform.store 0 (List.replicate 56 0)
  else
    -- Pad block to 56 bytes
    ctx.store p (List.replicate (count - 8) 0)

/-- `MD5Final`: the digest and the context, of which the last call of `memset` clears `sizeof(ctx)`
bytes, four of them. -/
def md5Final (ctx : MD5Context) : Except Fault (Bytes × MD5Context) := do
  -- Compute number of bytes mod 64
  let ctx ← md5Padding ctx (ctx.bits0 >>> 3 &&& 0x3f).toNat
  -- Append length in bits and transform
  let ctx ← ctx.store 56 (le32 ctx.bits0)
  let ctx ← ctx.store 60 (le32 ctx.bits1)
  let ctx := ctx.transform
  return (ctx.buf.bytes, { ctx with buf := { ctx.buf with a := 0 } })

end Spook
