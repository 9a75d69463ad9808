import Mathlib.Data.Int.ModEq
import Adbd.Wire

/-!
# The Framebuffer Service

`framebuffer_service` runs `screencap` as a child and forwards what it prints: width, height
and format, from which the service makes a header, and the pixels. The pixels are copied in
blocks of 640 bytes until the index has passed the size, and then the remainder of the size
modulo 640 once more. If the size is no multiple of 640 the last block is one that is not
there.

The service has the write end of the pipe open itself, so a read behind the last byte waits
for ever; whether it does, or sees the end of the file, is an input. Declarations with
initialisers that a `goto done` jumps over leave their variables unassigned.

## Main definitions

* `FbInfo`, `pixelFormat`, `fbInfo`: the header.
* `FbIo`, `FbIo.copyLoop`, `FbIo.forward`: what is read and written.
* `FbVars`, `framebufferDone`: the variables the clean-up uses.
* `framebufferService`: the service.
* `ImageForwarded`: header and pixels are written, no more and no less, and the service ends.

## Main results

* `fbSize_eq`: the size is the product, if that fits.
* `FbIo.copyLoop_blocks`: whole blocks are copied.
* `image_forwarded_iff`: when the image is forwarded.
-/

namespace Adbd

/-! ### The header -/

/-- `struct fbinfo`. -/
structure FbInfo where
  version : UInt32
  bpp : UInt32
  size : UInt32
  width : UInt32
  height : UInt32
  redOffset : UInt32
  redLength : UInt32
  blueOffset : UInt32
  blueLength : UInt32
  greenOffset : UInt32
  greenLength : UInt32
  alphaOffset : UInt32
  alphaLength : UInt32
deriving DecidableEq, Repr

/-- The 52 bytes of the header. -/
def FbInfo.image (o : ByteOrder) (i : FbInfo) : List UInt8 :=
  [i.version, i.bpp, i.size, i.width, i.height, i.redOffset, i.redLength, i.blueOffset,
    i.blueLength, i.greenOffset, i.greenLength, i.alphaOffset, i.alphaLength].flatMap
      (storeWord o)

theorem FbInfo.length_image (o : ByteOrder) (i : FbInfo) : (i.image o).length = 52 := by
  simp [FbInfo.image]

/-- A case of the `switch` over the format: bits and bytes of a pixel, and offset and length of
each colour. -/
structure PixelFormat where
  bpp : UInt32
  bytes : UInt32
  red : UInt32 × UInt32
  green : UInt32 × UInt32
  blue : UInt32 × UInt32
  alpha : UInt32 × UInt32
deriving DecidableEq, Repr

/-- The formats 1 to 5. -/
def pixelFormat (f : UInt32) : Option PixelFormat :=
  if f = 1 then some ⟨32, 4, (0, 8), (8, 8), (16, 8), (24, 8)⟩ -- RGBA_8888
  else if f = 2 then some ⟨32, 4, (0, 8), (8, 8), (16, 8), (24, 0)⟩ -- RGBX_8888
  else if f = 3 then some ⟨24, 3, (0, 8), (8, 8), (16, 8), (24, 0)⟩ -- RGB_888
  else if f = 4 then some ⟨16, 2, (11, 5), (5, 6), (0, 5), (0, 0)⟩ -- RGB_565
  else if f = 5 then some ⟨32, 4, (16, 8), (8, 8), (0, 8), (24, 8)⟩ -- BGRA_8888
  else none

def DDMS_RAWIMAGE_VERSION : UInt32 := 1

/-- `fbinfo`, for a width and height. The product is one of `int`s, in 32 bits. -/
def fbInfo (w h : UInt32) (p : PixelFormat) : FbInfo where
  version := DDMS_RAWIMAGE_VERSION
  bpp := p.bpp
  size := w * h * p.bytes
  width := w
  height := h
  redOffset := p.red.1
  redLength := p.red.2
  blueOffset := p.blue.1
  blueLength := p.blue.2
  greenOffset := p.green.1
  greenLength := p.green.2
  alphaOffset := p.alpha.1
  alphaLength := p.alpha.2

/-! ### Reading and writing -/

/-- `readx` on a pipe: behind the last byte a read sees the end of the file, or waits. -/
def pipeReadx (eof : Bool) : List Call → Nat → List UInt8 → Got (List UInt8)
  | cs, 0, st => .got [] st cs
  | [], len + 1, st =>
      if len + 1 ≤ st.length then .got (st.take (len + 1)) (st.drop (len + 1)) []
      else if eof then .failed else .hangs
  | .eintr :: cs, len + 1, st => pipeReadx eof cs (len + 1) st
  | .error :: _, _ + 1, _ => .failed
  | .upTo n :: cs, len + 1, st =>
      if st = [] then if eof then .failed else .hangs
      else
        let bs := st.take (min n (len + 1))
        if bs = [] then .failed
        else (pipeReadx eof cs (len + 1 - bs.length) (st.drop bs.length)).after bs

/-- The pipe from the child, with how its reads will end and whether there is an end of the
file, and the pipe to the main loop, with how its writes will end and what was written. -/
structure FbIo where
  pipe : List UInt8
  eof : Bool
  calls : List Call := []
  wcalls : List Call := []
  out : List UInt8 := []
deriving DecidableEq, Repr

/-- A part of the service goes on with a value, goes to `done`, or waits for ever. -/
inductive FbStep (α : Type)
  | next (a : α) (s : FbIo)
  | done (s : FbIo)
  | waits (s : FbIo)

/-- Go on with the value of a part. -/
def FbStep.andThen {α β : Type} (r : FbStep α) (f : α → FbIo → FbStep β) : FbStep β :=
  match r with
  | .next a s => f a s
  | .done s => .done s
  | .waits s => .waits s

/-- What was read and written when it ended. -/
def FbStep.io {α : Type} : FbStep α → FbIo
  | .next _ s | .done s | .waits s => s

namespace FbIo

/-- `readx(fd_screencap, ..)`. -/
def readx (s : FbIo) (n : Nat) : FbStep (List UInt8) :=
  match pipeReadx s.eof s.calls n s.pipe with
  | .got bs rest left => .next bs { s with pipe := rest, calls := left }
  | .failed => .done s
  | .hangs => .waits s

/-- `writex(wfd, ..)`. -/
def writex (s : FbIo) (bs : List UInt8) : FbStep Unit :=
  let r := Adbd.writex s.wcalls bs
  let s := { s with out := s.out ++ r.bytes, wcalls := r.left }
  if r.ok then .next () s else .done s

/-- One turn of the loop over the blocks: a block is read and written. -/
def copyBlock (s : FbIo) : FbStep Unit :=
  (s.readx 640).andThen fun buf s => s.writex buf

/-- The loop over the blocks, from the index `i` on. Every turn reads 640 bytes, so the length
of the pipe bounds their number. -/
def copyLoop (size : UInt32) : Nat → UInt32 → FbIo → FbStep Unit
  | 0, _, s => .waits s
  | n + 1, i, s =>
      if i < size then s.copyBlock.andThen fun _ s => copyLoop size n (i + 640) s
      else .next () s

/-- The copy: the blocks, and the remainder. -/
def copy (size : UInt32) (s : FbIo) : FbStep Unit :=
  (copyLoop size (s.pipe.length + 1) 0 s).andThen fun _ s =>
    (s.readx (size % 640).toNat).andThen fun buf s => s.writex buf

/-- The part of the service that runs while the child does. -/
def forward (o : ByteOrder) (s : FbIo) : FbStep Unit :=
  (s.readx 4).andThen fun w s =>
    (s.readx 4).andThen fun h s =>
      (s.readx 4).andThen fun f s =>
        match pixelFormat (loadWord o f) with
        | none => .done s
        | some p =>
            let info := fbInfo (loadWord o w) (loadWord o h) p
            (s.writex (info.image o)).andThen fun _ s => copy info.size s

end FbIo

/-! ### The service -/

/-- The variables the clean-up uses, as far as they were assigned: `buf` is an address or
null. -/
structure FbVars where
  buf : Option (Option Nat) := none
  pid : Option Int := none
  fds : Option (Nat × Nat) := none

/-- What a service has come to own: memory, children, and descriptors it opened. -/
structure Owned where
  memory : List Nat := []
  children : List Int := []
  fds : List Nat := []
deriving DecidableEq, Repr

/-- What a clean-up does: the addresses freed, the children waited for, and the descriptors
closed. -/
structure CleanUp where
  freed : List Nat
  waited : List Int
  closed : List Nat
deriving DecidableEq, Repr

/-- How a service ends: not at all, or with its clean-up, which may use a variable that was
never assigned. -/
inductive ServiceEnd
  | waits
  | unassigned
  | cleaned (c : CleanUp)
deriving DecidableEq, Repr

/-- The label `done`. `free` of a null pointer does nothing. -/
def framebufferDone (rfd wfd : Nat) (v : FbVars) : ServiceEnd :=
  match v.pid, v.buf, v.fds with
  | some pid, some buf, some fds =>
      .cleaned {
        freed := buf.toList
        waited := if 0 < pid then [pid] else []
        closed := [fds.1, fds.2, rfd, wfd] }
  | _, _, _ => .unassigned

/-- What the service is given and what the system answers: the two descriptors, the results of
`malloc`, `pipe` and `fork` (or `vfork`), and what it reads and writes. -/
structure FbEnv where
  rfd : Nat
  wfd : Nat
  buf : Option Nat
  fds : Option (Nat × Nat)
  /-- a pid, unless there is no process; the child goes its own way -/
  child : Option Nat
  io : FbIo

/-- What a service wrote, how it ended and what it owned then. -/
structure ServiceResult where
  out : List UInt8
  ending : ServiceEnd
  owned : Owned
deriving DecidableEq, Repr

/-- `framebuffer_service`. The first two `goto`s jump over the declaration of `pid`, and over
the `pipe` that fills `fds`. -/
def framebufferService (o : ByteOrder) (env : FbEnv) : ServiceResult :=
  let v : FbVars := { buf := some env.buf }
  let own : Owned := { memory := env.buf.toList }
  match env.buf with
  | none => ⟨env.io.out, framebufferDone env.rfd env.wfd v, own⟩
  | some _ =>
      match env.fds with
      | none => ⟨env.io.out, framebufferDone env.rfd env.wfd v, own⟩
      | some fds =>
          let own := { own with fds := [fds.1, fds.2] }
          match env.child with
          | none =>
              let v := { v with fds := some fds, pid := some (-1) }
              ⟨env.io.out, framebufferDone env.rfd env.wfd v, own⟩
          | some n =>
              let v := { v with fds := some fds, pid := some (n + 1) }
              let own := { own with children := [(n : Int) + 1] }
              match env.io.forward o with
              | .next _ s | .done s => ⟨s.out, framebufferDone env.rfd env.wfd v, own⟩
              | .waits s => ⟨s.out, .waits, own⟩

/-! ### The size -/

/-- A word as an `int`. -/
def asInt (w : UInt32) : Int := w.toBitVec.toInt

/-- The number of bytes of an image. -/
def pixelBytes (w h : UInt32) (p : PixelFormat) : Int := asInt w * asInt h * p.bytes.toNat

/-- A product that the computation of the size forms is no `int`. -/
def SizeOverflows (w h : UInt32) (p : PixelFormat) : Prop :=
  ¬(-2 ^ 31 ≤ asInt w * asInt h ∧ asInt w * asInt h < 2 ^ 31) ∨
    ¬(-2 ^ 31 ≤ pixelBytes w h p ∧ pixelBytes w h p < 2 ^ 31)

/-- **The image is forwarded**: the header and the pixels are written, and the service ends;
and the size is the number of bytes of the image, computed without overflow, if that number
fits in 32 bits. -/
structure ImageForwarded (o : ByteOrder) (env : FbEnv) (w h : UInt32) (p : PixelFormat)
    (pixels : List UInt8) : Prop where
  header : ((fbInfo w h p).image o).length = 52
  written : (framebufferService o env).out = env.io.out ++ ((fbInfo w h p).image o ++ pixels)
  ends : (framebufferService o env).ending ≠ .waits
  size : 0 ≤ pixelBytes w h p → pixelBytes w h p < 2 ^ 32 →
    ((fbInfo w h p).size.toNat : Int) = pixelBytes w h p ∧ ¬SizeOverflows w h p

theorem pixelFormat_bytes {f : UInt32} {p : PixelFormat} (h : pixelFormat f = some p) :
    2 ≤ p.bytes.toNat ∧ p.bytes.toNat ≤ 4 := by
  unfold pixelFormat at h
  split_ifs at h <;> obtain rfl := Option.some.inj h <;> decide

/-- A word and the `int` it is are the same modulo `2 ^ 32`. -/
theorem asInt_modEq (w : UInt32) : asInt w ≡ (w.toNat : Int) [ZMOD 2 ^ 32] := by
  rw [asInt, BitVec.toInt_eq_toNat_bmod]
  exact Int.bmod_emod

/-- **The size is the number of bytes**, if that fits. -/
theorem fbSize_eq {w h : UInt32} {p : PixelFormat} (h0 : 0 ≤ pixelBytes w h p)
    (hlt : pixelBytes w h p < 2 ^ 32) :
    ((fbInfo w h p).size.toNat : Int) = pixelBytes w h p := by
  have hmod : pixelBytes w h p ≡ (w.toNat * h.toNat * p.bytes.toNat : Nat) [ZMOD 2 ^ 32] := by
    push_cast
    exact ((asInt_modEq w).mul (asInt_modEq h)).mul_right _
  have hsize : (fbInfo w h p).size.toNat = w.toNat * h.toNat * p.bytes.toNat % 2 ^ 32 := by
    simp [fbInfo, UInt32.toNat_mul]
  rw [hsize, Int.natCast_emod]
  exact Eq.trans hmod.symm (Int.emod_eq_of_lt h0 hlt)

/-- The computation overflows exactly if the number is no `int`. -/
theorem sizeOverflows_iff {w h : UInt32} {p : PixelFormat} (hb : 0 < p.bytes.toNat)
    (h0 : 0 ≤ pixelBytes w h p) : SizeOverflows w h p ↔ 2 ^ 31 ≤ pixelBytes w h p := by
  have hpos : (0 : Int) < p.bytes.toNat := by exact_mod_cast hb
  have harea : 0 ≤ asInt w * asInt h := nonneg_of_mul_nonneg_left h0 hpos
  have hle : asInt w * asInt h ≤ pixelBytes w h p := le_mul_of_one_le_right harea hpos
  rw [SizeOverflows]
  constructor <;> intro h <;> omega

/-! ### Reading and writing -/

/-- With enough bytes in the pipe it does not matter what is behind them. -/
theorem pipeReadx_eq (eof : Bool) (cs : List Call) {n : Nat} {st : List UInt8}
    (h : n ≤ st.length) : pipeReadx eof cs n st = readx cs n st := by
  induction cs, n, st using readx.induct with
  | case1 cs st => rw [pipeReadx, readx]
  | case2 len st hl => rw [pipeReadx, readx, if_pos hl, if_pos hl]
  | case3 len st hl => exact absurd h hl
  | case4 cs len st ih =>
      rw [pipeReadx, readx]
      exact ih h
  | case5 cs len st => rw [pipeReadx, readx]
  | case6 n cs len st bs hbs =>
      have hne : st ≠ [] := List.ne_nil_of_length_pos (by omega)
      rw [pipeReadx, readx, if_neg hne]
      dsimp only
      rw [if_pos hbs, if_pos hbs]
  | case7 n cs len st bs hbs ih =>
      have hne : st ≠ [] := List.ne_nil_of_length_pos (by omega)
      have hlen : bs.length = min (min n (len + 1)) st.length := List.length_take
      rw [pipeReadx, readx, if_neg hne]
      dsimp only
      rw [if_neg hbs, if_neg hbs, ih (by rw [List.length_drop]; omega)]

/-- With fewer the read is not completed. -/
theorem pipeReadx_short (eof : Bool) (cs : List Call) {n : Nat} {st : List UInt8}
    (h : st.length < n) : pipeReadx eof cs n st = .failed ∨
      pipeReadx eof cs n st = .hangs := by
  induction cs, n, st using readx.induct with
  | case1 cs st => exact absurd h (Nat.not_lt_zero _)
  | case2 len st hl => exact absurd h (by omega)
  | case3 len st hl =>
      rw [pipeReadx, if_neg hl]
      cases eof <;> simp
  | case4 cs len st ih =>
      rw [pipeReadx]
      exact ih h
  | case5 cs len st => exact .inl (by rw [pipeReadx])
  | case6 n cs len st bs hbs =>
      rw [pipeReadx]
      dsimp only
      rw [if_pos hbs]
      cases eof <;> simp [em']
  | case7 n cs len st bs hbs ih =>
      have hlen : bs.length = min (min n (len + 1)) st.length := List.length_take
      have hpos : 0 < bs.length := List.length_pos_of_ne_nil hbs
      have hne : st ≠ [] := List.ne_nil_of_length_pos (by omega)
      rw [pipeReadx, if_neg hne]
      dsimp only
      rw [if_neg hbs]
      rcases ih (by rw [List.length_drop]; omega) with h | h
      · rw [h]
        exact .inl rfl
      · rw [h]
        exact .inr rfl

namespace FbIo

variable {s : FbIo} {n : Nat}

/-- No read of the pipe fails, and no write of the other one. -/
structure Flows (s : FbIo) : Prop where
  calls : ∀ c ∈ s.calls, c.flows = true
  wcalls : ∀ c ∈ s.wcalls, c.flows = true

/-- A read takes what is in front. -/
theorem readx_append {a b : List UInt8} (h : s.Flows) (hpipe : s.pipe = a ++ b) :
    ∃ s', s'.Flows ∧ s'.pipe = b ∧ s'.out = s.out ∧ s.readx a.length = .next a s' := by
  have hn : a.length ≤ s.pipe.length := by
    rw [hpipe, List.length_append]
    omega
  obtain ⟨bs, rest, left, hgot⟩ := readx_succeeds h.calls hn
  obtain ⟨happ, hlen, hsuf⟩ := readx_takes s.calls a.length s.pipe bs rest left hgot
  obtain ⟨rfl, rfl⟩ := List.append_inj (happ.symm.trans hpipe) hlen
  refine ⟨{ s with pipe := rest, calls := left },
    ⟨fun c hc => h.calls c (hsuf.subset hc), h.wcalls⟩, rfl, rfl, ?_⟩
  rw [FbIo.readx, pipeReadx_eq s.eof s.calls hn, hgot]

theorem readx_of_lt (hn : s.pipe.length < n) : s.readx n = .done s ∨ s.readx n = .waits s := by
  rw [FbIo.readx]
  rcases pipeReadx_short s.eof s.calls hn with h | h <;> rw [h] <;> simp

theorem writex_flows (h : s.Flows) (bs : List UInt8) :
    ∃ s', s'.Flows ∧ s'.pipe = s.pipe ∧ s'.out = s.out ++ bs ∧ s.writex bs = .next () s' := by
  have hw := writex_writes s.wcalls bs
  have hok := writex_ok h.wcalls bs
  refine ⟨{ s with out := s.out ++ bs, wcalls := (Adbd.writex s.wcalls bs).left },
    ⟨h.calls, fun c hc => h.wcalls c (hw.left.subset hc)⟩, rfl, rfl, ?_⟩
  rw [FbIo.writex, if_pos hok, hw.ok_iff.mp hok]

/-! ### The copy -/

/-- **A whole block is copied**, if there is one. -/
theorem copyBlock_whole (h : s.Flows) (hpipe : 640 ≤ s.pipe.length) :
    ∃ s', s'.Flows ∧ s'.pipe = s.pipe.drop 640 ∧ s'.out = s.out ++ s.pipe.take 640 ∧
      s.copyBlock = .next () s' := by
  obtain ⟨s₁, hf₁, hp₁, ho₁, hr⟩ := readx_append h (List.take_append_drop 640 s.pipe).symm
  obtain ⟨s₂, hf₂, hp₂, ho₂, hw⟩ := writex_flows hf₁ (s.pipe.take 640)
  rw [List.length_take_of_le hpipe] at hr
  refine ⟨s₂, hf₂, hp₂.trans hp₁, by rw [ho₂, ho₁], ?_⟩
  rw [copyBlock, hr]
  exact hw

/-- A block that is not there ends the service, or it waits for it. -/
theorem copyBlock_short (hpipe : s.pipe.length < 640) :
    s.copyBlock = .done s ∨ s.copyBlock = .waits s := by
  rcases readx_of_lt hpipe with h | h
  · exact .inl (by rw [copyBlock, h]; rfl)
  · exact .inr (by rw [copyBlock, h]; rfl)

/-- **Whole blocks are copied**, as long as there are any. -/
theorem copyLoop_blocks {size : UInt32} (k m : Nat) {i : UInt32} (h : s.Flows)
    (hpipe : 640 * k ≤ s.pipe.length) (hi : i.toNat + 640 * k ≤ size.toNat) :
    ∃ s' i', s'.Flows ∧ s'.pipe = s.pipe.drop (640 * k) ∧
      s'.out = s.out ++ s.pipe.take (640 * k) ∧ i'.toNat = i.toNat + 640 * k ∧
      copyLoop size (m + k) i s = copyLoop size m i' s' := by
  induction k generalizing i s with
  | zero => exact ⟨s, i, h, by simp, by simp, rfl, rfl⟩
  | succ k ih =>
      have hfirst : 640 ≤ s.pipe.length :=
        (Nat.le_mul_of_pos_right 640 k.succ_pos).trans hpipe
      have hsize : size.toNat < 2 ^ 32 := size.toNat_lt
      have hlt : i < size := UInt32.lt_iff_toNat_lt.mpr (by omega)
      have hnext : (i + 640).toNat = i.toNat + 640 := by
        rw [UInt32.toNat_add]
        exact Nat.mod_eq_of_lt (by simp; omega)
      have hmul : 640 * (k + 1) = 640 + 640 * k := by omega
      obtain ⟨s₁, hf₁, hp₁, hout₁, hblock⟩ := copyBlock_whole h hfirst
      obtain ⟨s', i', hf, hp, hout, hi', heq⟩ := ih (i := i + 640) hf₁
        (by rw [hp₁, List.length_drop]; omega) (by omega)
      refine ⟨s', i', hf, ?_, ?_, by omega, ?_⟩
      · rw [hp, hp₁, List.drop_drop, hmul]
      · rw [hout, hp₁, hout₁, hmul, List.take_add, List.append_assoc]
      · rw [← heq, ← Nat.add_assoc, copyLoop, if_pos hlt, hblock]
        rfl

/-- The loop goes on with the whole blocks behind it. -/
theorem copyLoop_rest {size : UInt32} (h : s.Flows) (hlen : s.pipe.length = size.toNat) :
    ∃ s' i' m, s'.Flows ∧ s'.pipe = s.pipe.drop (640 * (size.toNat / 640)) ∧
      s'.out = s.out ++ s.pipe.take (640 * (size.toNat / 640)) ∧
      i'.toNat = 640 * (size.toNat / 640) ∧
      copyLoop size (s.pipe.length + 1) 0 s =
        if i' < size then s'.copyBlock.andThen fun _ s => copyLoop size m (i' + 640) s
        else .next () s' := by
  have hk : size.toNat / 640 ≤ size.toNat := Nat.div_le_self _ _
  have hblocks : 640 * (size.toNat / 640) ≤ size.toNat := Nat.mul_div_le _ _
  have hturns : s.pipe.length - size.toNat / 640 + 1 + size.toNat / 640 =
    s.pipe.length + 1 := by
    omega
  obtain ⟨s', i', hf, hp, hout, hi', hloop⟩ := copyLoop_blocks (i := 0) (size.toNat / 640)
    (s.pipe.length - size.toNat / 640 + 1) h (hblocks.trans_eq hlen.symm)
      (by simpa using hblocks)
  rw [hturns] at hloop
  exact ⟨s', i', _, hf, hp, hout, by simpa using hi', hloop⟩

/-- The copy of an image whose size is a multiple of the block. -/
theorem copy_whole {size : UInt32} (h : s.Flows) (hlen : s.pipe.length = size.toNat)
    (hmod : size.toNat % 640 = 0) :
    ∃ s', s'.out = s.out ++ s.pipe ∧ copy size s = .next () s' := by
  have hblocks : 640 * (size.toNat / 640) = size.toNat :=
    Nat.mul_div_cancel' (Nat.dvd_of_mod_eq_zero hmod)
  have hrest : (size % 640).toNat = 0 := by simpa using hmod
  obtain ⟨s₁, i', m, hf₁, hp₁, ho₁, hi', hloop⟩ := copyLoop_rest h hlen
  obtain ⟨s₂, hf₂, hp₂, ho₂, hr⟩ := readx_append hf₁ (List.nil_append s₁.pipe).symm
  obtain ⟨s₃, hf₃, hp₃, ho₃, hw⟩ := writex_flows hf₂ []
  have hend : ¬i' < size := by
    rw [UInt32.lt_iff_toNat_lt, hi', hblocks]
    exact Nat.lt_irrefl _
  rw [if_neg hend] at hloop
  refine ⟨s₃, ?_, ?_⟩
  · rw [ho₃, ho₂, ho₁, hblocks, ← hlen, List.take_length, List.append_nil]
  · rw [copy, hloop, FbStep.andThen, hrest]
    exact (congrArg (FbStep.andThen · _) hr).trans hw

/-- The copy of another image: it ends, or waits, at the last block. -/
theorem copy_rest {size : UInt32} (h : s.Flows) (hlen : s.pipe.length = size.toNat)
    (hmod : size.toNat % 640 ≠ 0) :
    ∃ s', s'.out = s.out ++ s.pipe.take (640 * (size.toNat / 640)) ∧
      (copy size s = .done s' ∨ copy size s = .waits s') := by
  have hsplit : 640 * (size.toNat / 640) + size.toNat % 640 = size.toNat := Nat.div_add_mod _ _
  have hlast : size.toNat % 640 < 640 := Nat.mod_lt _ (by decide)
  obtain ⟨s', i', m, hf, hp, hout, hi', hloop⟩ := copyLoop_rest h hlen
  have hgo : i' < size := by
    rw [UInt32.lt_iff_toNat_lt, hi']
    omega
  have hshort : s'.pipe.length < 640 := by
    rw [hp, List.length_drop, hlen]
    omega
  rw [if_pos hgo] at hloop
  refine ⟨s', hout, ?_⟩
  rcases copyBlock_short hshort with hb | hb
  · exact .inl (by rw [copy, hloop, hb]; rfl)
  · exact .inr (by rw [copy, hloop, hb]; rfl)

/-! ### The forwarded part -/

/-- A read of a word. -/
theorem readx_word {o : ByteOrder} {w : UInt32} {rest : List UInt8} (h : s.Flows)
    (hpipe : s.pipe = storeWord o w ++ rest) :
    ∃ s', s'.Flows ∧ s'.pipe = rest ∧ s'.out = s.out ∧
      s.readx 4 = .next (storeWord o w) s' := by
  have hread := readx_append h hpipe
  rwa [length_storeWord] at hread

/-- **The header is written**, and then the image is copied. -/
theorem forward_eq {o : ByteOrder} {w h f : UInt32} {p : PixelFormat} {pixels : List UInt8}
    (hflows : s.Flows) (hformat : pixelFormat f = some p)
    (hpipe : s.pipe = storeWord o w ++ (storeWord o h ++ (storeWord o f ++ pixels))) :
    ∃ s', s'.Flows ∧ s'.pipe = pixels ∧ s'.out = s.out ++ (fbInfo w h p).image o ∧
      s.forward o = copy (fbInfo w h p).size s' := by
  have hload (x : UInt32) : loadWord o (storeWord o x) = x := by
    simpa using loadWord_storeWord o x []
  obtain ⟨s₁, hf₁, hp₁, ho₁, hr₁⟩ := readx_word hflows hpipe
  obtain ⟨s₂, hf₂, hp₂, ho₂, hr₂⟩ := readx_word hf₁ hp₁
  obtain ⟨s₃, hf₃, hp₃, ho₃, hr₃⟩ := readx_word hf₂ hp₂
  obtain ⟨s₄, hf₄, hp₄, ho₄, hw⟩ := writex_flows hf₃ ((fbInfo w h p).image o)
  refine ⟨s₄, hf₄, hp₄.trans hp₃, by rw [ho₄, ho₃, ho₂, ho₁], ?_⟩
  rw [forward, hr₁, FbStep.andThen, hr₂, FbStep.andThen, hr₃, FbStep.andThen]
  simp only [hload, hformat]
  rw [hw]
  rfl

end FbIo

/-! ### The service -/

/-- **When the image is forwarded**: the size is a multiple of 640, and it is no product that
fits in 32 bits but not in an `int`. -/
theorem image_forwarded_iff (o : ByteOrder) {env : FbEnv} {w h f : UInt32} {p : PixelFormat}
    {pixels : List UInt8} {buf n : Nat} {fds : Nat × Nat} (hbuf : env.buf = some buf)
    (hfds : env.fds = some fds) (hchild : env.child = some n) (hflows : env.io.Flows)
    (hformat : pixelFormat f = some p)
    (hpipe : env.io.pipe = storeWord o w ++ (storeWord o h ++ (storeWord o f ++ pixels)))
    (hpixels : pixels.length = (fbInfo w h p).size.toNat) :
    ImageForwarded o env w h p pixels ↔
      (w * h * p.bytes).toNat % 640 = 0 ∧
        ¬(2 ^ 31 ≤ pixelBytes w h p ∧ pixelBytes w h p < 2 ^ 32) := by
  obtain ⟨s, hf, hp, hout, hforward⟩ := FbIo.forward_eq hflows hformat hpipe
  have hlen : s.pipe.length = (fbInfo w h p).size.toNat := by rw [hp, hpixels]
  have hb : 0 < p.bytes.toNat := lt_of_lt_of_le Nat.zero_lt_two (pixelFormat_bytes hformat).1
  have hsize : (0 ≤ pixelBytes w h p → pixelBytes w h p < 2 ^ 32 →
      ((fbInfo w h p).size.toNat : Int) = pixelBytes w h p ∧ ¬SizeOverflows w h p) ↔
      ¬(2 ^ 31 ≤ pixelBytes w h p ∧ pixelBytes w h p < 2 ^ 32) := by
    constructor
    · rintro hsize ⟨hge, hlt⟩
      have h0 : 0 ≤ pixelBytes w h p := le_trans (by decide) hge
      exact (hsize h0 hlt).2 ((sizeOverflows_iff hb h0).mpr hge)
    · intro hno h0 hlt
      exact ⟨fbSize_eq h0 hlt, fun ho => hno ⟨(sizeOverflows_iff hb h0).mp ho, hlt⟩⟩
  rw [← hsize]
  by_cases hmod : (fbInfo w h p).size.toNat % 640 = 0
  · obtain ⟨s', hout', hcopy⟩ := FbIo.copy_whole hf hlen hmod
    have hservice : (framebufferService o env).out = s'.out ∧
        (framebufferService o env).ending ≠ .waits := by
      simp [framebufferService, hbuf, hfds, hchild, hforward, hcopy, framebufferDone]
    refine ⟨fun hi => ⟨hmod, hi.size⟩,
      fun hc => ⟨FbInfo.length_image o _, ?_, hservice.2, hc.2⟩⟩
    rw [hservice.1, hout', hout, hp, List.append_assoc]
  · obtain ⟨s', hout', hcopy⟩ := FbIo.copy_rest hf hlen hmod
    have hservice : (framebufferService o env).out = s'.out := by
      rcases hcopy with hcopy | hcopy <;>
        simp [framebufferService, hbuf, hfds, hchild, hforward, hcopy]
    refine ⟨fun hi => absurd ?_ hmod, fun hc => absurd hc.1 hmod⟩
    have hall : pixels.take (640 * ((fbInfo w h p).size.toNat / 640)) = pixels := by
      have hw := hi.written
      rw [hservice, hout', hout, hp, List.append_assoc] at hw
      exact List.append_cancel_left (List.append_cancel_left hw)
    have hle := congrArg List.length hall
    rw [List.length_take, hpixels] at hle
    have hsplit := Nat.div_add_mod (fbInfo w h p).size.toNat 640
    omega

/-- What `screencap` prints for an image of one line, and the system for it. The service holds
the write end of the pipe itself, so there is no end of the file. -/
def fbLine (w : UInt32) (pixels : List UInt8) : FbEnv where
  rfd := 3
  wfd := 4
  buf := some 4096
  fds := some (5, 6)
  child := some 41
  io := {
    pipe := storeWord .little w ++ (storeWord .little 1 ++ (storeWord .little 1 ++ pixels))
    eof := false
    calls := [.upTo 3, .eintr]
    wcalls := [.upTo 100] }

/-- 160 pixels of four bytes are one block, and forwarded. -/
theorem image_forwarded_line :
    ImageForwarded .little (fbLine 160 (List.replicate 640 7)) 160 1
      ⟨32, 4, (0, 8), (8, 8), (16, 8), (24, 8)⟩ (List.replicate 640 7) :=
  (image_forwarded_iff .little (f := 1) (w := 160) (h := 1) rfl rfl rfl
    ⟨by decide, by decide⟩ rfl rfl List.length_replicate).mpr ⟨by decide, by decide⟩

/-- One pixel is not: its four bytes are no block, and the service waits for the rest of
one. -/
theorem image_forwarded_pixel :
    (fbLine 1 [1, 2, 3, 4]).io.Flows ∧
      (fbInfo 1 1 ⟨32, 4, (0, 8), (8, 8), (16, 8), (24, 8)⟩).size = 4 ∧
      (framebufferService .little (fbLine 1 [1, 2, 3, 4])).ending = .waits ∧
      ¬ImageForwarded .little (fbLine 1 [1, 2, 3, 4]) 1 1
        ⟨32, 4, (0, 8), (8, 8), (16, 8), (24, 8)⟩ [1, 2, 3, 4] :=
  ⟨⟨by decide, by decide⟩, by decide, by decide +kernel,
    fun hi => absurd hi.written (by decide +kernel)⟩

end Adbd
