import Amnezia.Tools.Command

/-!
# Reading lines of the text protocol

`Reads` says that a list of lines takes the reader from one device to another.  It composes along
the list, so that a writer is read back one group of lines after the other.
-/

namespace Amnezia.Tools

open Crypto (Key)
open Libc (Bytes)

variable {f : UapiField}

section Lines

variable {Addr : Type} {sys : Resolver Addr}

def readFields (sys : Resolver Addr) (st : GetState Addr) (fs : List UapiField) :
    Except GetFailure (GetState Addr) :=
  fs.foldlM (fun st f => getField sys st f.1.toList f.2) st

def InLine (text : Bytes) : Prop := '\n' ∉ text ∧ '\x00' ∉ text

instance (text : Bytes) : Decidable (InLine text) :=
  inferInstanceAs (Decidable ('\n' ∉ text ∧ '\x00' ∉ text))

structure UapiField.OneLine (f : UapiField) : Prop where
  key : f.1.toList.all Java.word = true
  value : InLine f.2

theorem UapiField.OneLine.notMem (h : f.OneLine) {c : Char} (hc : Java.word c = false) :
    c ∉ f.1.toList := by
  intro hmem
  rw [List.all_eq_true.1 h.key c hmem] at hc
  exact absurd hc (by decide)

theorem UapiField.OneLine.line (h : f.OneLine) : InLine f.line := by
  unfold UapiField.line InLine
  simp only [List.mem_append, List.mem_cons, not_or]
  exact ⟨⟨h.notMem (by decide), by decide, h.value.1⟩, ⟨h.notMem (by decide), by decide, h.value.2⟩⟩

theorem getLine_line (h : '=' ∉ f.1.toList) (st : GetState Addr) :
    getLine sys st (f.line ++ ['\n']) = getField sys st f.1.toList f.2 := by
  have hlast : (f.line ++ ['\n']).getLast? = some '\n' := List.getLast?_concat
  have hcut : f.line ++ ['\n'] = f.1.toList ++ '=' :: (f.2 ++ ['\n']) := by
    rw [UapiField.line, List.append_assoc, List.cons_append]
  unfold getLine
  rw [hlast, hcut, Fields.dropWhile_append_cons h, Fields.takeWhile_append_cons h]
  simp only [ne_eq, not_true_eq_false, if_false, List.dropLast_concat]

theorem UapiField.line_ne_empty (f : UapiField) : f.line ++ ['\n'] ≠ ['\n'] := by
  intro heq
  have hlength := congrArg List.length heq
  simp only [UapiField.line, List.length_append, List.length_cons, List.length_nil] at hlength
  omega

theorem readReply_fields {fs : List UapiField} (h : ∀ f ∈ fs, '=' ∉ f.1.toList)
    (st : GetState Addr) (rest : List Bytes) :
    readReply sys st (fs.map (fun f => f.line ++ ['\n']) ++ rest) =
      readFields sys st fs >>= fun st => readReply sys st rest := by
  induction fs generalizing st with
  | nil => rfl
  | cons f fs ih =>
    rw [List.map_cons, List.cons_append, readReply, if_neg f.line_ne_empty,
      getLine_line (h f List.mem_cons_self), readFields, List.foldlM_cons, bind_assoc]
    congr 1
    funext st
    exact ih (fun g hg => h g (List.mem_cons_of_mem f hg)) st

-- The key of the last line is read in every state.
theorem getField_errno (st : GetState Addr) :
    getField sys st "errno".toList ['0'] = .ok { st with errno := some 0 } := by
  have hdevice : fieldKey uapiDeviceKeys "errno".toList = none := by decide
  have hpeer : fieldKey uapiPeerKeys "errno".toList = none := by decide
  have hnum : num 2147483647 ['0'] = some 0 := by decide
  unfold getField
  rw [hdevice, hpeer, ite_self]
  simp only [hnum]
  cases st.device.peers.getLast? <;> rfl

theorem userspaceGetDevice_fields {fs : List UapiField} (h : ∀ f ∈ fs, f.OneLine) :
    userspaceGetDevice sys (fs.flatMap (fun f => f.line ++ ['\n']) ++ "errno=0\n\n".toList) =
      readFields sys {} fs >>= fun st => .ok st.device := by
  have hlines : (fs.flatMap fun f => f.line ++ ['\n']) ++ "errno=0\n\n".toList =
      (fs.map UapiField.line ++ ["errno=0".toList, []]).flatMap (· ++ ['\n']) := by
    rw [List.flatMap_append, List.flatMap_map]
    rfl
  have hone : ∀ l ∈ fs.map UapiField.line ++ ["errno=0".toList, []], InLine l := by
    intro l hl
    obtain hl | hl := List.mem_append.1 hl
    · obtain ⟨f, hf, rfl⟩ := List.mem_map.1 hl
      exact (h f hf).line
    · rcases List.mem_pair.1 hl with rfl | rfl <;> decide
  have hend : ∀ st : GetState Addr,
      readReply sys st ["errno=0\n".toList, ['\n']] = .ok st.device := by
    intro st
    have hline : getLine sys st "errno=0\n".toList = getField sys st "errno".toList ['0'] :=
      getLine_line (f := ("errno", ['0'])) (by decide) st
    rw [readReply, if_neg (by decide), hline, getField_errno]
    rfl
  unfold userspaceGetDevice
  rw [hlines, Libc.getlines_cstr hone, List.map_append, List.map_map]
  refine (readReply_fields (fun f hf => (h f hf).notMem (by decide)) {} _).trans ?_
  congr 1
  funext st
  exact hend st

end Lines

variable {value : Bytes}

section Reads

variable {Addr : Type} {sys : Resolver Addr} {d d' d'' : WgDevice Addr} {fs gs : List UapiField}

structure Reads (sys : Resolver Addr) (d : WgDevice Addr) (fs : List UapiField) (d' : WgDevice Addr) :
    Prop where
  oneLine : ∀ f ∈ fs, f.OneLine
  run : ∀ errno, readFields sys ⟨d, errno⟩ fs = .ok ⟨d', errno⟩

theorem Reads.nil : Reads sys d [] d :=
  ⟨fun _ hf => (List.not_mem_nil hf).elim, fun _ => rfl⟩

theorem Reads.append (h₁ : Reads sys d fs d') (h₂ : Reads sys d' gs d'') :
    Reads sys d (fs ++ gs) d'' := by
  constructor
  · intro f hf
    obtain hf | hf := List.mem_append.1 hf
    · exact h₁.oneLine f hf
    · exact h₂.oneLine f hf
  · intro errno
    have hfirst := h₁.run errno
    unfold readFields at hfirst ⊢
    rw [List.foldlM_append, hfirst]
    exact h₂.run errno

theorem Reads.cons {f : UapiField} (h₁ : Reads sys d [f] d') (h₂ : Reads sys d' gs d'') :
    Reads sys d (f :: gs) d'' :=
  h₁.append h₂

theorem Reads.get (h : Reads sys {} fs d) :
    userspaceGetDevice sys (fs.flatMap (fun f => f.line ++ ['\n']) ++ "errno=0\n\n".toList) =
      .ok d := by
  rw [userspaceGetDevice_fields h.oneLine, h.run none]
  rfl

theorem Reads.single {key : String} (hline : UapiField.OneLine (key, value))
    (h : ∀ errno, getField sys ⟨d, errno⟩ key.toList value = .ok ⟨d', errno⟩) :
    Reads sys d [(key, value)] d' := by
  constructor
  · intro f hf
    rw [List.mem_singleton.1 hf]
    exact hline
  · intro errno
    show (getField sys ⟨d, errno⟩ key.toList value >>= pure) = _
    rw [h errno]
    rfl

theorem uapiKeys_word : (∀ k ∈ uapiDeviceKeys, k.1.toList.all Java.word = true) ∧
    ∀ k ∈ uapiPeerKeys, k.1.toList.all Java.word = true := by
  decide

variable {name : String}

theorem Reads.deviceKey {key : DeviceKey} (hpeers : d.peers = [])
    (hkey : fieldKey uapiDeviceKeys name.toList = some key) (hvalue : InLine value)
    (h : d.getField key value = some d') : Reads sys d [(name, value)] d' := by
  obtain ⟨name', hmem, hname⟩ := fieldKey_mem hkey
  refine Reads.single ⟨hname ▸ uapiKeys_word.1 _ hmem, hvalue⟩ ?_
  intro errno
  unfold getField
  simp only [hpeers, if_true, hkey, h]

def passedOver (name : String) : Bool :=
  (fieldKey uapiDeviceKeys name.toList).isNone && (fieldKey uapiPeerKeys name.toList).isNone
    && name.toList != "public_key".toList && name.toList != "errno".toList

theorem Reads.passedOver (hline : UapiField.OneLine (name, value))
    (h : Tools.passedOver name = true) : Reads sys d [(name, value)] d := by
  unfold Tools.passedOver at h
  simp only [Bool.and_eq_true, Option.isNone_iff_eq_none, bne_iff_ne] at h
  obtain ⟨⟨⟨hdevice, hpeer⟩, hpublic⟩, herrno⟩ := h
  refine Reads.single hline ?_
  intro errno
  unfold getField
  rw [hdevice, hpeer, ite_self]
  simp only [if_neg hpublic, if_neg herrno]
  split
  · contradiction
  · rfl

theorem inLine_keyToHex (key : Key) : InLine (keyToHex key) :=
  ⟨fun h => absurd (isAlphanum_keyToHex h) (by decide),
    fun h => absurd (isAlphanum_keyToHex h) (by decide)⟩

theorem inLine_valueOf (n : Nat) : InLine (Java.valueOf n) :=
  ⟨fun h => absurd (Java.isDigit_of_mem_valueOf h) (by decide),
    fun h => absurd (Java.isDigit_of_mem_valueOf h) (by decide)⟩

theorem Reads.publicKey (key : Key) : Reads sys d [("public_key", keyToHex key)]
    { d with peers := d.peers ++ [{ publicKey := some key }] } := by
  have hdevice : fieldKey uapiDeviceKeys "public_key".toList = none := by decide
  have hname : "public_key".toList.all Java.word = true := by decide
  refine Reads.single ⟨hname, inLine_keyToHex key⟩ ?_
  intro errno
  unfold getField
  rw [hdevice, ite_self]
  simp only [if_true, keyFromHex_keyToHex]

theorem Reads.peerKey {key : UapiPeerKey} {done : List (WgPeer Addr)} {p p' : WgPeer Addr}
    (hpeers : d.peers = done ++ [p]) (hkey : fieldKey uapiPeerKeys name.toList = some key)
    (hpublic : name.toList ≠ "public_key".toList) (hvalue : InLine value)
    (h : p.getField sys key value = .ok p') :
    Reads sys d [(name, value)] { d with peers := done ++ [p'] } := by
  obtain ⟨name', hmem, hname⟩ := fieldKey_mem hkey
  refine Reads.single ⟨hname ▸ uapiKeys_word.2 _ hmem, hvalue⟩ ?_
  intro errno
  unfold getField
  simp only [hpeers, List.append_eq_nil_iff, List.cons_ne_nil, and_false, if_false, if_neg hpublic,
    List.getLast?_concat, hkey, List.dropLast_concat, h]
  rfl

theorem Reads.chains : Loops.Chains (Reads sys) where
  nil _ := .nil
  append := .append

end Reads

section Values

variable {Addr : Type} {sys : Resolver Addr}

theorem num_valueOf {max n : Nat} (h : n ≤ max) (hmax : max < 18446744073709551616) :
    num max (Java.valueOf n) = some n := by
  unfold num
  rw [head_valueOf, if_neg (by decide), Libc.strtoul_valueOf (by omega)]
  simp only [ne_eq, not_true_eq_false, false_or]
  rw [if_neg (by omega)]

/-- The value of `allowed_ip` is read as the parser of a file reads its address. -/
theorem getAllowedIp_text {text : Bytes} {family : Family} {ip : Addr} {cidr : Nat}
    (htext : parseIp sys text = .ok (family, ip)) (hslash : '/' ∉ text)
    (hcidr : cidr ≤ family.maxCidr) :
    getAllowedIp sys (text ++ '/' :: Java.valueOf cidr) = some ⟨family, ip, cidr⟩ := by
  have hmax := family.maxCidr_le
  have hparsed : (if ':' ∈ text then (sys.inetPton6 text).map (Family.inet6, ·)
      else (sys.inetPton4 text).map (Family.inet, ·)) = some (family, ip) := by
    unfold parseIp at htext
    split at htext <;> split at htext <;> cases htext
    · rw [if_pos ‹_›, ‹sys.inetPton6 text = _›]
      rfl
    · rw [if_neg ‹_›, ‹sys.inetPton4 text = _›]
      rfl
  unfold getAllowedIp
  rw [Libc.strsep_append hslash]
  simp only [head_valueOf, Bool.true_eq_false, if_false, Libc.strtoul_valueOf (n := cidr) (by omega), hparsed]
  rw [Nat.mod_eq_of_lt (by omega), if_neg (by simpa using hcidr)]

variable {d : WgDevice Addr}

theorem Reads.allowedIps {d : WgDevice Addr} {done : List (WgPeer Addr)} {p : WgPeer Addr}
    {texts : List Bytes} {ips : List (WgAllowedIp Addr)}
    (h : List.Forall₂ (fun text ip => InLine text ∧ getAllowedIp sys text = some ip) texts ips) :
    Reads sys { d with peers := done ++ [p] } (texts.map fun text => ("allowed_ip", text))
      { d with peers := done ++ [{ p with allowedIps := p.allowedIps ++ ips }] } := by
  have hkey : fieldKey uapiPeerKeys "allowed_ip".toList = some .allowedIp :=
    fieldKey_uapiPeerKeys ("allowed_ip", .allowedIp) (by simp [uapiPeerKeys])
  induction h generalizing p with
  | nil =>
    rw [List.append_nil]
    exact .nil
  | @cons text ip texts ips htext hrest ih =>
    have hline : Reads sys { d with peers := done ++ [p] } [("allowed_ip", text)]
        { d with peers := done ++ [{ p with allowedIps := p.allowedIps ++ [ip] }] } := by
      refine Reads.peerKey rfl hkey (by decide) htext.1 ?_
      simp only [WgPeer.getField, htext.2]
    have happend : p.allowedIps ++ ip :: ips = p.allowedIps ++ [ip] ++ ips := by simp
    rw [happend]
    exact hline.cons ih

/-- No string is `NULL`, and none has a line feed. -/
def StringsRead (d : WgDevice Addr) : Prop :=
  ∀ p, ∀ t ∈ d.string p, ∃ s, t = some s ∧ '\n' ∉ s

theorem WgDevice.getField_strings {d' : WgDevice Addr} {key : DeviceKey}
    (h : d.getField key value = some d') (hvalue : '\n' ∉ value) (hd : StringsRead d) :
    StringsRead d' := by
  cases key with
  | listenPort | fwMark | privateKey | uint =>
    obtain ⟨_, _, rfl⟩ := Option.map_eq_some_iff.1 h
    exact hd
  | string q =>
    cases h
    intro p t ht
    change t ∈ Function.update d.string q (some (some value)) p at ht
    by_cases hp : p = q
    · subst hp
      rw [Function.update_self] at ht
      cases ht
      exact ⟨value, rfl, hvalue⟩
    · rw [Function.update_of_ne hp] at ht
      exact hd p t ht

variable {st st' : GetState Addr} {key line : Bytes} {lines : List Bytes}

inductive FieldStep (sys : Resolver Addr) (st : GetState Addr) (key value : Bytes) :
    GetState Addr → Prop
  | device (k : DeviceKey) (d : WgDevice Addr) (hpeers : st.device.peers = [])
      (hkey : fieldKey uapiDeviceKeys key = some k) (hd : st.device.getField k value = some d) :
      FieldStep sys st key value { st with device := d }
  | publicKey (k : Key) (hkey : key = "public_key".toList) :
      FieldStep sys st key value
        { st with device := { st.device with peers := st.device.peers ++ [{ publicKey := some k }] } }
  | peer (k : UapiPeerKey) (done : List (WgPeer Addr)) (p p' : WgPeer Addr)
      (hpeers : st.device.peers = done ++ [p]) (hpublic : key ≠ "public_key".toList)
      (hkey : fieldKey uapiPeerKeys key = some k) (hp : p.getField sys k value = .ok p') :
      FieldStep sys st key value { st with device := { st.device with peers := done ++ [p'] } }
  | errno (n : Nat) (hkey : key = "errno".toList) (hvalue : num 2147483647 value = some n) :
      FieldStep sys st key value { st with errno := some n }
  | other (hpublic : key ≠ "public_key".toList)
      (hdevice : st.device.peers = [] → fieldKey uapiDeviceKeys key = none)
      (hpeer : st.device.peers = [] ∨ fieldKey uapiPeerKeys key = none) :
      FieldStep sys st key value st

theorem getField_cases (h : getField sys st key value = .ok st') :
    FieldStep sys st key value st' := by
  unfold getField at h
  split at h
  · next k hdevice =>
    by_cases hpeers : st.device.peers = []
    · rw [if_pos hpeers] at hdevice
      split at h
      · cases h
      · next d hd =>
        cases h
        exact .device k d hpeers hdevice hd
    · rw [if_neg hpeers] at hdevice
      cases hdevice
  next hdevice =>
  split at h
  · next hpublic =>
    split at h
    · cases h
    · next k hk =>
      cases h
      exact .publicKey k hpublic
  next hpublic =>
  split at h
  · next p k hlast hkey =>
    obtain ⟨done, hpeers⟩ := List.getLast?_eq_some_iff.1 hlast
    obtain ⟨p', hp', rfl⟩ := map_eq_ok h
    rw [hpeers, List.dropLast_concat]
    exact .peer k done p p' hpeers hpublic hkey hp'
  · next hneither =>
    split at h
    · next herrno =>
      split at h
      · cases h
      · next n hn =>
        cases h
        exact .errno n herrno hn
    · cases h
      refine .other hpublic (fun hpeers => by rwa [if_pos hpeers] at hdevice) ?_
      cases hlast : st.device.peers.getLast? with
      | none => exact .inl (List.getLast?_eq_none_iff.1 hlast)
      | some p => exact .inr (Option.eq_none_iff_forall_ne_some.2 fun k hk => hneither p k hlast hk)

theorem getField_strings (h : getField sys st key value = .ok st') (hvalue : '\n' ∉ value)
    (hst : StringsRead st.device) : StringsRead st'.device := by
  cases getField_cases h with
  | device k d hpeers hkey hd => exact WgDevice.getField_strings hd hvalue hst
  | publicKey | peer | errno | other => exact hst

theorem getLine_strings (h : getLine sys st line = .ok st') (hline : '\n' ∉ line.dropLast)
    (hst : StringsRead st.device) : StringsRead st'.device := by
  unfold getLine at h
  split at h
  · cases h
  split at h
  · cases h
  · rename_i c value hvalue _
    refine getField_strings h ?_ hst
    intro hmem
    have hsuffix : c :: value <:+ line := hvalue ▸ List.dropWhile_suffix _
    obtain ⟨before, hbefore⟩ := hsuffix
    have hne : value ≠ [] := by
      rintro rfl
      cases hmem
    apply hline
    rw [← hbefore, List.dropLast_append_of_ne_nil (List.cons_ne_nil c value),
      List.dropLast_cons_of_ne_nil hne]
    exact List.mem_append_right _ (List.mem_cons_of_mem c hmem)

-- The loop ends at an empty line, with `errno` zero, or goes on.
theorem readReply_cons_ok (h : readReply sys st (line :: lines) = .ok d) :
    (line = ['\n'] ∧ st.errno = some 0 ∧ st.device = d) ∨
      (line ≠ ['\n'] ∧ ∃ st₁, getLine sys st line = .ok st₁ ∧ readReply sys st₁ lines = .ok d) := by
  rw [readReply] at h
  split at h
  · next hline =>
    split at h
    · cases h
    · next herrno =>
      cases h
      exact .inl ⟨hline, herrno, rfl⟩
    · cases h
  · next hline => exact .inr ⟨hline, Loops.bind_eq_ok.1 h⟩

theorem readReply_strings (h : readReply sys st lines = .ok d)
    (hlines : ∀ l ∈ lines, '\n' ∉ l.dropLast) (hst : StringsRead st.device) : StringsRead d := by
  induction lines generalizing st with
  | nil => cases h
  | cons line lines ih =>
    obtain ⟨-, -, rfl⟩ | ⟨-, st₁, hline, h⟩ := readReply_cons_ok h
    · exact hst
    · exact ih h (fun l hl => hlines l (List.mem_cons_of_mem line hl))
        (getLine_strings hline (hlines line List.mem_cons_self) hst)

theorem userspaceGetDevice_strings {reply : Bytes} (h : userspaceGetDevice sys reply = .ok d) :
    StringsRead d := by
  refine readReply_strings h ?_ (fun p t ht => nomatch ht)
  intro l hl
  obtain ⟨raw, hraw, rfl⟩ := List.mem_map.1 hl
  exact Libc.notMem_dropLast_of_prefix ((Libc.areLines_getlines _).inner _ hraw)
    (List.takeWhile_prefix _)

end Values

end Amnezia.Tools
