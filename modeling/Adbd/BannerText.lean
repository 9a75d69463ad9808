import Adbd.HandlePacket
import Adbd.Tokens

/-!
# What a Banner Says

The payload of a `CNXN` names a kind of system and its properties:
`type:field:key=value;key=value;`. `parse_banner` cuts it in place. Here its result is given in
terms of the text alone, for every text, and compared with how banners are written.

## Main definitions

* `kindOfSystem`, `Qualifiers.assign`: what the type and a property are taken for.
* `readBanner`: what a banner says.
* `bannerText`: a banner with given properties.

## Main results

* `banner_read`: `parse_banner` finds what the text says, up to its first zero.
* `banner_round_trip`: a banner that was written is read.
-/

namespace Adbd

open CString

variable {m : Buf} {n p key room : Nat} {f rest s tok : List UInt8} {q : Qualifiers}
    {c : UInt8}

/-! ### The text -/

/-- What is in front of the first `c`, or all of a string. -/
def upTo (c : UInt8) (s : List UInt8) : List UInt8 := s.takeWhile (· ≠ c)

/-- What is behind the first `c`. -/
def behind (c : UInt8) (s : List UInt8) : List UInt8 := (s.dropWhile (· ≠ c)).tail

/-- What `connection_state` becomes. -/
def kindOfSystem (type : List UInt8) : ConnState :=
  if type = ascii ['b', 'o', 'o', 't', 'l', 'o', 'a', 'd', 'e', 'r'] then .bootloader
  else if type = ascii ['d', 'e', 'v', 'i', 'c', 'e'] then .device
  else if type = ascii ['r', 'e', 'c', 'o', 'v', 'e', 'r', 'y'] then .recovery
  else if type = ascii ['s', 'i', 'd', 'e', 'l', 'o', 'a', 'd'] then .sideload
  else .host

/-- A property is set; an empty value clears it. -/
def Qualifiers.set (q : Qualifiers) (key value : List UInt8) : Qualifiers :=
  let value := if value = [] then none else some value
  if key = productName then { q with product := value }
  else if key = productModel then { q with model := value }
  else if key = productDevice then { q with device := value }
  else q

/-- A token `key=value`; any other is ignored. -/
def Qualifiers.assign (q : Qualifiers) (tok : List UInt8) : Qualifiers :=
  if 61 ∈ tok then q.set (upTo 61 tok) (behind 61 tok) else q

/-- **What a banner says**, for a transport with given qualifiers. -/
def readBanner (banner : List UInt8) (q : Qualifiers) : ConnState × Qualifiers :=
  (kindOfSystem (upTo 58 banner),
    (tokens 59 (behind 58 (behind 58 banner))).foldl Qualifiers.assign q)

theorem all_ne (hf : c ∉ f) : ∀ b ∈ f, decide (b ≠ c) = true := fun _ hb =>
  decide_eq_true fun h => hf (h ▸ hb)

theorem upTo_cut (hf : c ∉ f) : upTo c (f ++ c :: rest) = f := by
  rw [upTo, List.takeWhile_append_of_pos (all_ne hf), List.takeWhile_cons_of_neg (by simp),
    List.append_nil]

theorem behind_cut (hf : c ∉ f) : behind c (f ++ c :: rest) = rest := by
  rw [behind, List.dropWhile_append_of_pos (all_ne hf), List.dropWhile_cons_of_neg (by simp)]
  rfl

theorem upTo_of_not_mem (hs : c ∉ s) : upTo c s = s :=
  List.takeWhile_eq_self_iff.mpr (all_ne hs)

theorem behind_of_not_mem (hs : c ∉ s) : behind c s = [] := by
  rw [behind, List.dropWhile_eq_nil_iff.mpr (all_ne hs)]
  rfl

/-! ### The functions -/

/-- A qualifier is copied into the record. -/
theorem yields_qualOverwrite (f : Option (List UInt8) → Qualifiers) (h : CStringAt m p s)
    (hn : s.length < room) :
    Yields m (qualOverwrite room p >>= fun value => pure (f value))
      (f (if s = [] then none else some s)) := by
  intro m' hm'
  have h' : CStringAt (m'.touch p) p s := h.of_bytes fun i _ _ => by rw [Buf.touch_bytes, hm']
  rw [Acc.run_bind, qualOverwrite, Acc.run_bind, Acc.run_rd]
  dsimp only
  rw [hm']
  by_cases hs : s = []
  · rw [if_pos (h.nil_iff.mpr hs), if_pos hs]
    exact ⟨rfl, (Buf.touch_bytes ..).trans hm'⟩
  · rw [if_neg fun h0 => hs (h.nil_iff.mp h0), if_neg hs, Acc.run_bind, Acc.run_pure,
      Acc.run_pure]
    dsimp only
    rw [strdup_frame, strdup_string h'.holds h'.zero h'.nonzero hn, Buf.touch_bytes]
    exact ⟨rfl, hm'⟩

/-- **A property is parsed**: nothing outside of its token is written. -/
theorem run_parseProp (h : CStringAt m key tok) (hn : tok.length < room) :
    ((parseProp room key q).run m).1 = q.assign tok ∧ ∀ j, j < key ∨ key + tok.length ≤ j →
      ((parseProp room key q).run m).2.bytes j = m.bytes j := by
  have hfind := h.run_strchr 61 (by decide) hn
  have hframe := (strchr_frame 61 room key m).1
  rw [parseProp, Acc.run_bind]
  generalize (strchr 61 room key).run m = r at hfind hframe ⊢
  obtain ⟨v, m₁⟩ := r
  dsimp only at hfind hframe ⊢
  obtain ⟨hno, rfl⟩ | ⟨name, value, rfl, hname, rfl⟩ := hfind
  · refine ⟨?_, fun j _ => by rw [← hframe]; rfl⟩
    rw [Qualifiers.assign, if_neg hno]
    rfl
  have h₁ : CStringAt m₁ key (name ++ 61 :: value) := h.of_bytes fun i _ _ => by rw [hframe]
  obtain ⟨hkey, hvalue⟩ := h₁.cut
  rw [List.length_append, List.length_cons] at hn ⊢
  rw [Qualifiers.assign, if_pos (by simp), upTo_cut hname, behind_cut hname]
  dsimp only
  rw [Acc.run_bind, Acc.run_wr]
  dsimp only
  have hb : ∀ j, j < key ∨ key + (name.length + (value.length + 1)) ≤ j →
      (m₁.put (key + name.length) 0).bytes j = m.bytes j := fun j hj => by
    rw [Buf.put_bytes_of_ne _ _ (by omega), hframe]
  generalize m₁.put (key + name.length) 0 = m₂ at hkey hvalue hb ⊢
  have hset (f : Option (List UInt8) → Qualifiers) :=
    yields_qualOverwrite f hvalue (by omega : _ < room)
  obtain ⟨hres, hbytes⟩ := hkey.yields_ifEq (l := productName) (by decide)
    (hset fun v => { q with product := v })
    (hkey.yields_ifEq (l := productModel) (by decide) (hset fun v => { q with model := v })
      (hkey.yields_ifEq (l := productDevice) (by decide) (hset fun v => { q with device := v })
        (.pure q))) m₂ rfl
  exact ⟨hres, fun j hj => (congrFun hbytes j).trans (hb j hj)⟩

/-- **The loop over the properties.** -/
theorem run_parseProps (h : CStringAt m p s) (hn : s.length < n) (hroom : s.length < room) :
    ((parseProps room n p q).run m).1 = (tokens 59 s).foldl Qualifiers.assign q ∧
      ∀ j < p, ((parseProps room n p q).run m).2.bytes j = m.bytes j := by
  induction n generalizing p s q m with
  | zero => exact absurd hn (Nat.not_lt_zero _)
  | succ n ih =>
      have htok := h.run_strtokR 59 (by decide) hroom
      rw [parseProps, Acc.run_bind]
      generalize (strtokR 59 room p).run m = r at htok ⊢
      obtain ⟨v, m₁⟩ := r
      cases v with
      | none =>
          rw [htok.none rfl]
          exact ⟨rfl, htok.frame⟩
      | some v =>
          obtain ⟨i, save⟩ := v
          obtain ⟨tok, rest, htokens, hstr, hrest, hpi, hsave, hlen, hlt⟩ :=
            htok.some i save rfl
          dsimp only at hstr hrest ⊢
          obtain ⟨hres, hframe⟩ := run_parseProp (q := q) hstr (Nat.lt_of_le_of_lt hlen hroom)
          rw [Acc.run_bind]
          have hrest' : CStringAt ((parseProp room i q).run m₁).2 save rest :=
            hrest.of_bytes fun j hj _ => hframe j (.inr (Nat.le_trans hsave hj))
          obtain ⟨hloop, hframe'⟩ := ih (q := ((parseProp room i q).run m₁).1) hrest'
            (by omega)
            (Nat.lt_trans hlt hroom)
          rw [htokens, List.foldl_cons, ← hres]
          refine ⟨hloop, fun j hj => ?_⟩
          rw [hframe' j (by omega), hframe j (.inl (by omega))]
          exact htok.frame j hj

/-- **The type of a banner.** -/
theorem run_bannerType (h : CStringAt m 0 s) : (bannerType.run m).1 = kindOfSystem s :=
  (h.yields_ifEq (by decide) (.pure _) (h.yields_ifEq (by decide) (.pure _)
    (h.yields_ifEq (by decide) (.pure _) (h.yields_ifEq (by decide) (.pure _) (.pure _))))
    m rfl).1

/-- The properties are parsed, and the type is left. -/
theorem run_parseFields (h : CStringAt m 0 s) (hroom : s.length < room) :
    ((parseFields room q).run m).1 =
        (tokens 59 (behind 58 (behind 58 s))).foldl Qualifiers.assign q ∧
      CStringAt ((parseFields room q).run m).2 0 (upTo 58 s) := by
  have hfind := h.run_strchr 58 (by decide) hroom
  have hframe := (strchr_frame 58 room 0 m).1
  rw [parseFields, Acc.run_bind]
  generalize (strchr 58 room 0).run m = r at hfind hframe ⊢
  obtain ⟨v, m₁⟩ := r
  dsimp only at hfind hframe ⊢
  obtain ⟨hno, rfl⟩ | ⟨type, rest, rfl, htype, rfl⟩ := hfind
  · rw [behind_of_not_mem hno, upTo_of_not_mem hno]
    exact ⟨rfl, h.of_bytes fun i _ _ => by rw [← hframe]; rfl⟩
  have h₁ : CStringAt m₁ 0 (type ++ 58 :: rest) := h.of_bytes fun i _ _ => by rw [hframe]
  obtain ⟨hstr, hrest⟩ := h₁.cut
  rw [List.length_append, List.length_cons] at hroom
  rw [behind_cut htype, upTo_cut htype]
  dsimp only
  rw [Acc.run_bind, Acc.run_wr]
  dsimp only
  generalize m₁.put (0 + type.length) 0 = m₂ at hstr hrest ⊢
  rw [Acc.run_bind]
  have hfind := hrest.run_strchr (n := room) 58 (by decide) (by omega)
  have hframe := (strchr_frame 58 room (0 + type.length + 1) m₂).1
  generalize (strchr 58 room (0 + type.length + 1)).run m₂ = r at hfind hframe ⊢
  obtain ⟨v, m₃⟩ := r
  dsimp only at hfind hframe ⊢
  have hstr₃ : CStringAt m₃ 0 type := hstr.of_bytes fun i _ _ => by rw [hframe]
  obtain ⟨hno, rfl⟩ | ⟨field, props, rfl, hfield, rfl⟩ := hfind
  · rw [behind_of_not_mem hno]
    exact ⟨rfl, hstr₃⟩
  rw [behind_cut hfield]
  rw [List.length_append, List.length_cons] at hroom
  have hprops : CStringAt m₃ (0 + type.length + 1 + field.length + 1) props := by
    have hrest₃ : CStringAt m₃ (0 + type.length + 1) _ := hrest.of_bytes fun i _ _ => by
      rw [hframe]
    rw [← List.singleton_append, ← List.append_assoc] at hrest₃
    have hend := (CStringAt.append_iff.mp hrest₃).2.2
    rwa [List.length_append, List.length_singleton, ← Nat.add_assoc] at hend
  obtain ⟨hres, hframe'⟩ := run_parseProps (q := q) (n := room) hprops (by omega)
    (by omega : _ < room)
  exact ⟨hres, hstr₃.of_bytes fun i _ hi => hframe' i (by omega)⟩

/-- **`parse_banner` finds what the text says.** -/
theorem run_parseBanner (h : CStringAt m 0 s) (hroom : s.length < room) :
    ((parseBanner room q).run m).1 = readBanner s q := by
  obtain ⟨hres, hstr⟩ := run_parseFields (q := q) h hroom
  rw [parseBanner, Acc.run_bind, Acc.run_bind, Acc.run_pure]
  exact Prod.ext (run_bannerType hstr) hres

/-- The string at the start of a payload. -/
theorem cstringAt_ofList (data : List UInt8) : CStringAt (Buf.ofList data) 0 (cstr data) := by
  by_cases hzero : 0 ∈ data
  · obtain ⟨f, rest, rfl, hf⟩ := List.eq_append_cons_of_mem hzero
    rw [show cstr (f ++ 0 :: rest) = f from upTo_cut hf]
    refine ⟨fun i hi => ?_, ?_, hf⟩
    · simp [Buf.ofList, List.getElem?_append_left hi, hi]
    · simp [Buf.ofList]
  · rw [show cstr data = data from upTo_of_not_mem hzero]
    refine ⟨fun i hi => ?_, ?_, hzero⟩
    · simp [Buf.ofList, hi]
    · simp [Buf.ofList]

/-- **What the payload of a `CNXN` is taken for**: the text up to its first zero, whatever is
in the buffer behind it. -/
theorem banner_read (T : ATransport) (data : List UInt8) : T.parseBanner data =
    { T with
      connectionState := (readBanner (cstr data) T.quals).1
      quals := (readBanner (cstr data) T.quals).2 } := by
  have hlen : (cstr data).length < data.length + 1 :=
    Nat.lt_succ_of_le (List.takeWhile_prefix _).length_le
  rw [ATransport.parseBanner, run_parseBanner (cstringAt_ofList data) hlen]

/-! ### Written banners -/

/-- The text of a property. -/
def propText (prop : List UInt8 × List UInt8) : List UInt8 := prop.1 ++ 61 :: prop.2 ++ [59]

/-- A banner with a type, a second field, and properties. -/
def bannerText (type field : List UInt8) (props : List (List UInt8 × List UInt8)) :
    List UInt8 :=
  type ++ 58 :: (field ++ 58 :: props.flatMap propText)

/-- A property that can be written. -/
structure Writable (prop : List UInt8 × List UInt8) : Prop where
  key : 61 ∉ prop.1 ∧ 59 ∉ prop.1 ∧ 0 ∉ prop.1
  value : 59 ∉ prop.2 ∧ 0 ∉ prop.2

theorem tokens_props {props : List (List UInt8 × List UInt8)}
    (h : ∀ prop ∈ props, Writable prop) :
    tokens 59 (props.flatMap propText) = props.map fun prop => prop.1 ++ 61 :: prop.2 := by
  induction props with
  | nil => rfl
  | cons prop props ih =>
      obtain ⟨⟨-, hkey, -⟩, hvalue, -⟩ := h prop List.mem_cons_self
      have hno : 59 ∉ prop.1 ++ 61 :: prop.2 := by
        rw [List.mem_append, List.mem_cons]
        rintro (hm | hm | hm)
        · exact hkey hm
        · cases hm
        · exact hvalue hm
      have hne : prop.1 ++ 61 :: prop.2 ≠ [] := by simp
      rw [List.flatMap_cons, propText, List.append_assoc, List.singleton_append,
        tokens_cut hno, if_neg hne, ih fun p hp => h p (List.mem_cons_of_mem _ hp),
        List.map_cons]

/-- There is no zero in the text of properties. -/
theorem zero_not_mem_props {props : List (List UInt8 × List UInt8)}
    (h : ∀ prop ∈ props, Writable prop) : 0 ∉ props.flatMap propText := by
  intro h0
  obtain ⟨prop, hprop, h0⟩ := List.mem_flatMap.mp h0
  obtain ⟨⟨-, -, hkey⟩, -, hvalue⟩ := h prop hprop
  rw [propText, List.mem_append, List.mem_append, List.mem_cons] at h0
  rcases h0 with (h0 | h0 | h0) | h0
  · exact hkey h0
  · cases h0
  · exact hvalue h0
  · exact absurd (List.mem_singleton.mp h0) (by decide)

/-- **A banner that was written is read**: its type gives the state of the connection, and the
last value of each property is kept. -/
theorem banner_round_trip (T : ATransport) (type field : List UInt8)
    (props : List (List UInt8 × List UInt8)) (behind : List UInt8)
    (htype : 58 ∉ type ∧ 0 ∉ type) (hfield : 58 ∉ field ∧ 0 ∉ field)
    (hprops : ∀ prop ∈ props, Writable prop) :
    T.parseBanner (bannerText type field props ++ 0 :: behind) =
      { T with
        connectionState := kindOfSystem type
        quals := props.foldl (fun q prop => q.set prop.1 prop.2) T.quals } := by
  have hcstr : cstr (bannerText type field props ++ 0 :: behind) =
    bannerText type field props := by
    refine upTo_cut (c := 0) fun h0 => ?_
    simp only [bannerText, List.mem_append, List.mem_cons] at h0
    rcases h0 with h0 | h0 | h0 | h0 | h0
    · exact htype.2 h0
    · cases h0
    · exact hfield.2 h0
    · cases h0
    · exact zero_not_mem_props hprops h0
  have hfold : (props.map fun prop => prop.1 ++ 61 :: prop.2).foldl Qualifiers.assign T.quals =
      props.foldl (fun q prop => q.set prop.1 prop.2) T.quals := by
    rw [List.foldl_map]
    refine List.foldl_ext _ _ _ fun q prop hprop => ?_
    obtain ⟨hkey, -⟩ := (hprops prop hprop).key
    rw [Qualifiers.assign, if_pos (by simp), upTo_cut hkey, behind_cut hkey]
  rw [banner_read, hcstr, readBanner, bannerText, upTo_cut htype.1, behind_cut htype.1,
    behind_cut hfield.1, tokens_props hprops, hfold]

/-! ### The banner of the daemon -/

/-- The loop of `fill_connect_data` writes the properties, if they fit. -/
theorem run_fillConnectLoop (props : List (List UInt8 × List UInt8)) (buf remaining : Nat)
    (m : Buf) (h : (props.flatMap propText).length < remaining) (hend : m.bytes buf = 0) :
    ((fillConnectLoop props buf remaining).run m).1 =
        remaining - (props.flatMap propText).length ∧
      Wrote buf (buf + remaining) m ((fillConnectLoop props buf remaining).run m).2 ∧
      Holds ((fillConnectLoop props buf remaining).run m).2 buf
        (props.flatMap propText ++ [0]) := by
  induction props generalizing buf remaining m with
  | nil =>
      refine ⟨rfl, .refl m, fun i hi => ?_⟩
      obtain rfl : i = 0 := by simpa using hi
      exact hend
  | cons prop props ih =>
      rw [List.flatMap_cons, List.length_append] at h
      rw [fillConnectLoop, Acc.run_bind]
      obtain ⟨hlen, hw, hfits⟩ := run_snprintf buf (propText prop) m
        (show 0 < remaining by omega)
      obtain ⟨htext, hzero⟩ := hfits (by omega)
      rw [propText] at hlen hw htext hzero
      set m₁ := ((snprintf buf remaining (prop.1 ++ 61 :: prop.2 ++ [59])).run m).2
      rw [hlen, ← propText]
      rw [← propText] at htext hzero
      obtain ⟨hres, hw', hholds⟩ := ih (buf + (propText prop).length)
        (remaining - (propText prop).length) m₁ (by omega) hzero
      refine ⟨?_, hw.trans (hw'.mono (Nat.le_add_right ..) (by omega)), ?_⟩
      · rw [hres, List.flatMap_cons, List.length_append, Nat.sub_sub]
      · rw [List.flatMap_cons, List.append_assoc]
        exact (htext.wrote hw' (.inl (Nat.le_refl _))).append hholds

/-- **`fill_connect_data` writes a banner** with the properties of the daemon, and returns its
length with the terminator. -/
theorem run_fillConnectData (banner : List UInt8) (buf bufsize : Nat) (m : Buf)
    (h : (bannerText banner [] cnxnProps).length < bufsize) :
    ((fillConnectData banner buf bufsize).run m).1 =
        (bannerText banner [] cnxnProps).length + 1 ∧
      Wrote buf (buf + bufsize) m ((fillConnectData banner buf bufsize).run m).2 ∧
      Holds ((fillConnectData banner buf bufsize).run m).2 buf
        (bannerText banner [] cnxnProps ++ [0]) := by
  have htext : bannerText banner [] cnxnProps =
      banner ++ [58, 58] ++ cnxnProps.flatMap propText := by
    simp [bannerText]
  rw [htext, List.length_append] at h ⊢
  obtain ⟨hlen, hw, hfits⟩ :=
    run_snprintf buf (banner ++ [58, 58]) m (show 0 < bufsize by omega)
  obtain ⟨hhead, hzero⟩ := hfits (by omega)
  rw [fillConnectData, Acc.run_bind, Acc.run_bind, Acc.run_pure, hlen]
  set m₁ := ((snprintf buf bufsize (banner ++ [58, 58])).run m).2
  obtain ⟨hres, hw', hholds⟩ := run_fillConnectLoop cnxnProps
    (buf + (banner ++ [58, 58]).length) (bufsize - (banner ++ [58, 58]).length) m₁
      (by omega) hzero
  refine ⟨?_, hw.trans (hw'.mono (Nat.le_add_right ..) (by omega)), ?_⟩
  · dsimp only
    rw [hres]
    omega
  · rw [List.append_assoc]
    exact (hhead.wrote hw' (.inl (Nat.le_refl _))).append hholds

/-- **The payload of a `CNXN` of the daemon** is a terminated banner. -/
theorem connectData_eq (recovery : Bool) :
    connectData (adbDeviceBanner recovery) =
      bannerText (adbDeviceBanner recovery) [] cnxnProps ++ [0] := by
  have hfits : (bannerText (adbDeviceBanner recovery) [] cnxnProps).length < MAX_PAYLOAD := by
    cases recovery <;> decide +kernel
  obtain ⟨hlen, -, hholds⟩ := run_fillConnectData (adbDeviceBanner recovery) 0 MAX_PAYLOAD
    (.ofList []) hfits
  rw [connectData, hlen]
  refine List.ext_getElem (by simp) fun i hi hi' => ?_
  rw [List.getElem_map, List.getElem_range, ← hholds i hi', Nat.zero_add]

/-- The banner of the daemon says that it is a device, or in recovery, and which. -/
theorem banner_round_trip_connect :
    (ATransport.parseBanner { type := .usb }
        (connectData (adbDeviceBanner false))).connectionState = .device ∧
      (ATransport.parseBanner { type := .usb }
        (connectData (adbDeviceBanner true))).connectionState = .recovery ∧
      (ATransport.parseBanner { type := .usb }
        (connectData (adbDeviceBanner false))).quals.product =
          some (ascii ['o', 'c', 'c', 'a', 'm']) := by
  have hprops : ∀ prop ∈ cnxnProps, Writable prop := by
    simp only [cnxnProps, List.forall_mem_cons]
    exact ⟨⟨by decide +kernel, by decide +kernel⟩,
      ⟨by decide +kernel, by decide +kernel⟩,
      ⟨by decide +kernel, by decide +kernel⟩, fun _ h => absurd h List.not_mem_nil⟩
  have hread (recovery : Bool) := by
    have htype : 58 ∉ adbDeviceBanner recovery ∧ 0 ∉ adbDeviceBanner recovery := by
      cases recovery <;> decide +kernel
    exact banner_round_trip { type := .usb } _ [] _ [] htype (by decide) hprops
  rw [connectData_eq, connectData_eq, hread, hread]
  decide +kernel

end Adbd
