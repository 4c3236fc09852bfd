import Amnezia.Tools.UapiRead
import Amnezia.Tools.NetworkPrefix
import Amnezia.Tools.Numeric
import Amnezia.Tools.Uint16

/-!
# What an answer of a userspace device gives

`userspace_get_device` gives a number and a pointer, and `show_main` looks only at the sign of the
number.  One of the exits of the loop returns a positive number with the pointer `NULL`.  The prefix
length of an allowed IP is compared with its bound only after it was stored in eight bits.
-/

namespace Amnezia.Tools

open Libc
open Crypto (Key)

section

variable {Addr : Type} {sys : Resolver Addr}

/-! ## One line -/

/-- `key`, once the `=` is overwritten. -/
def keyOfLine (line : Bytes) : Bytes := line.takeWhile (· != '=')

/-- `value`, once the line feed is overwritten. -/
def valueOfLine (line : Bytes) : Bytes := (line.dropWhile (· != '=')).tail.dropLast

def allowedIpOf (key value : Bytes) : Option Bytes :=
  if key = "allowed_ip".toList then some value else none

def IpsOf (sys : Resolver Addr) (ips : List (WgAllowedIp Addr)) (values : List Bytes) : Prop :=
  List.Forall₂ (fun ip value => getAllowedIp sys value = some ip) ips values

variable {value : Bytes} {d : WgDevice Addr}

theorem WgDevice.getField_peers {d' : WgDevice Addr} {k : DeviceKey}
    (h : d.getField k value = some d') : d'.peers = d.peers := by
  cases k with
  | string p =>
    cases h
    rfl
  | privateKey | listenPort | fwMark | uint p =>
    obtain ⟨_, _, rfl⟩ := Option.map_eq_some_iff.1 h
    rfl

variable {p : WgPeer Addr} {k : UapiPeerKey}

-- Only the line of an allowed IP adds one.
theorem WgPeer.getField_ips {p' : WgPeer Addr} (h : p.getField sys k value = .ok p') :
    p'.publicKey = p.publicKey ∧
      ∃ ips, p'.allowedIps = p.allowedIps ++ ips ∧
        IpsOf sys ips (if k = .allowedIp then some value else none).toList := by
  have hsame : ∀ {k : UapiPeerKey}, k ≠ .allowedIp → p'.publicKey = p.publicKey →
      p'.allowedIps = p.allowedIps → p'.publicKey = p.publicKey ∧
        ∃ ips, p'.allowedIps = p.allowedIps ++ ips ∧
          IpsOf sys ips (if k = .allowedIp then some value else none).toList := by
    intro k hk hpublic hips
    rw [if_neg hk]
    exact ⟨hpublic, [], by rw [hips, List.append_nil], .nil⟩
  unfold WgPeer.getField at h
  cases k with
  | presharedKey | persistentKeepaliveInterval =>
    simp only at h
    split at h
    · cases h
    · cases h
      exact hsame (by decide) rfl rfl
  | endpoint =>
    simp only at h
    split at h
    · cases h
    split at h
    · cases h
    · cases h
      exact hsame (by decide) rfl rfl
  | allowedIp =>
    simp only at h
    split at h
    · cases h
    · next ip hip =>
      cases h
      exact ⟨rfl, [ip], rfl, .cons hip .nil⟩
  | counter max =>
    simp only at h
    split at h
    · cases h
      exact hsame (by simp) rfl rfl
    · cases h

theorem ne_public_key {key : Bytes} {k : DeviceKey} (h : fieldKey uapiDeviceKeys key = some k) :
    key ≠ "public_key".toList := by
  rintro rfl
  exact absurd (Option.isSome_of_eq_some h) (by decide)

theorem eq_allowed_ip :
    ∀ k ∈ uapiPeerKeys, k.1.toList = "allowed_ip".toList ↔ k.2 = .allowedIp := by
  decide

variable {key : Bytes}

theorem allowedIpOf_peerKey (h : fieldKey uapiPeerKeys key = some k) :
    allowedIpOf key value = if k = .allowedIp then some value else none := by
  obtain ⟨name, hmem, rfl⟩ := fieldKey_mem h
  unfold allowedIpOf
  by_cases hk : k = .allowedIp
  · rw [if_pos hk, if_pos ((eq_allowed_ip _ hmem).2 hk)]
  · rw [if_neg hk, if_neg (fun hname => hk ((eq_allowed_ip _ hmem).1 hname))]

theorem fieldKey_allowed_ip : fieldKey uapiPeerKeys "allowed_ip".toList = some .allowedIp :=
  fieldKey_uapiPeerKeys ("allowed_ip", .allowedIp) (by simp [uapiPeerKeys])

variable {st st' : GetState Addr}

-- With a peer, the key of an allowed IP is known.
theorem allowedIpOf_eq_none (h : fieldKey uapiPeerKeys key = none) :
    allowedIpOf key value = none := by
  unfold allowedIpOf
  rw [if_neg]
  rintro rfl
  rw [fieldKey_allowed_ip] at h
  cases h

variable {line : Bytes}

theorem getLine_eq_ok (h : getLine sys st line = .ok st') :
    getField sys st (keyOfLine line) (valueOfLine line) = .ok st' ∧ line.getLast? = some '\n' ∧
      '=' ∈ line := by
  unfold getLine at h
  split at h
  · cases h
  · next c value hcut =>
    split at h
    · cases h
    · next hlast =>
      unfold keyOfLine valueOfLine
      rw [hcut]
      refine ⟨h, by simpa using hlast, ?_⟩
      by_contra hmem
      rw [List.dropWhile_eq_nil_iff.2 (Fields.bne_of_notMem hmem)] at hcut
      cases hcut

/-! ## The number and the pointer -/

/-- What `userspace_get_device` returns, and what is in `*out` then.  The line for `getaddrinfo`
says `ret = ENETUNREACH`, without a minus. -/
def getResult : Except GetFailure (WgDevice Addr) → Int × Option (WgDevice Addr)
  | .ok d => (0, some d)
  | .error .proto => (-71, none)
  | .error .netUnreachable => (101, none)
  | .error (.errno n) => (-n, none)

inductive Shown (Addr : Type) where
  | unable
  | prints (d : WgDevice Addr)
  /-- `NULL` is used as a device. -/
  | usesNull

def showMain (got : Int × Option (WgDevice Addr)) : Shown Addr :=
  if got.1 < 0 then .unable
  else match got.2 with
    | some d => .prints d
    | none => .usesNull

def Finished (lines : List Bytes) : Prop :=
  ∃ pre post, lines = pre ++ ['\n'] :: post ∧
    ∃ line ∈ pre, keyOfLine line = "errno".toList ∧ num 2147483647 (valueOfLine line) = some 0

/-- Zero with a device that is complete, or a negative number with `NULL`. -/
def Agree (lines : List Bytes) (got : Int × Option (WgDevice Addr)) : Prop :=
  (got.1 = 0 ∧ ∃ d, got.2 = some d ∧ (∀ p ∈ d.peers, p.publicKey ≠ none) ∧ Finished lines) ∨
    (got.1 < 0 ∧ got.2 = none)

def NotFound (sys : Resolver Addr) (line : Bytes) : Prop :=
  keyOfLine line = "endpoint".toList ∧ '=' ∈ line ∧ line.getLast? = some '\n' ∧
    ∃ host port, splitEndpoint (valueOfLine line) = some (host, port) ∧
      sys.getaddrinfo host port = none

def Reaches (sys : Resolver Addr) (st : GetState Addr) (lines : List Bytes) : Prop :=
  ∃ pre line post st', lines = pre ++ line :: post ∧ ['\n'] ∉ pre ∧
    pre.foldlM (getLine sys) st = .ok st' ∧ st'.device.peers ≠ [] ∧ NotFound sys line

theorem eq_endpoint : ∀ k ∈ uapiPeerKeys, k.2 = .endpoint → k.1.toList = "endpoint".toList := by
  decide

theorem WgPeer.getField_eq_error {e : GetFailure} (h : p.getField sys k value = .error e) :
    e = .proto ∨ e = .netUnreachable ∧ k = .endpoint ∧
      ∃ host port, splitEndpoint value = some (host, port) ∧ sys.getaddrinfo host port = none := by
  unfold WgPeer.getField at h
  cases k with
  | presharedKey | persistentKeepaliveInterval | allowedIp | counter =>
    simp only at h
    split at h <;> cases h
    exact .inl rfl
  | endpoint =>
    simp only at h
    split at h
    · cases h
      exact .inl rfl
    · next host port hsplit =>
      split at h
      · next hnone =>
        cases h
        exact .inr ⟨rfl, rfl, host, port, hsplit, hnone⟩
      · cases h

-- A line fails with `EPROTO`, or at an endpoint whose host is not found.
theorem getField_eq_error {e : GetFailure} (h : getField sys st key value = .error e) :
    e = .proto ∨ e = .netUnreachable ∧ st.device.peers ≠ [] ∧ key = "endpoint".toList ∧
      ∃ host port, splitEndpoint value = some (host, port) ∧ sys.getaddrinfo host port = none := by
  unfold getField at h
  split at h
  · split at h <;> cases h
    exact .inl rfl
  split at h
  · split at h <;> cases h
    exact .inl rfl
  split at h
  · next p k hlast hkey =>
    obtain ⟨name, hmem, rfl⟩ := fieldKey_mem hkey
    have hp : p.getField sys k value = .error e := by
      cases hp : p.getField sys k value with
      | error e' =>
        rw [hp] at h
        cases h
        rfl
      | ok p' =>
        rw [hp] at h
        cases h
    obtain rfl | ⟨rfl, rfl, hnone⟩ := WgPeer.getField_eq_error hp
    · exact .inl rfl
    · refine .inr ⟨rfl, ?_, eq_endpoint _ hmem rfl, hnone⟩
      intro hpeers
      rw [hpeers] at hlast
      cases hlast
  · split at h
    · split at h <;> cases h
      exact .inl rfl
    · cases h

theorem getField_netUnreachable :
    getField sys st key value = .error .netUnreachable ↔
      st.device.peers ≠ [] ∧ key = "endpoint".toList ∧
        ∃ host port, splitEndpoint value = some (host, port) ∧
          sys.getaddrinfo host port = none := by
  constructor
  · intro h
    obtain h | ⟨-, h⟩ := getField_eq_error h
    · cases h
    · exact h
  · rintro ⟨hpeers, rfl, host, port, hsplit, hnone⟩
    have hkey : fieldKey uapiPeerKeys "endpoint".toList = some .endpoint := by decide
    unfold getField
    rw [if_neg hpeers]
    simp only
    rw [if_neg (by decide), List.getLast?_eq_some_getLast hpeers, hkey]
    simp only [WgPeer.getField, hsplit, hnone]
    rfl

theorem getLine_netUnreachable :
    getLine sys st line = .error .netUnreachable ↔
      st.device.peers ≠ [] ∧ NotFound sys line := by
  unfold getLine NotFound
  split
  · next hcut =>
    have hmem : '=' ∉ line := by
      intro hmem
      have hall := List.dropWhile_eq_nil_iff.1 hcut '=' hmem
      exact absurd hall (by decide)
    simp [hmem]
  · next c value hcut =>
    have hmem : '=' ∈ line := by
      by_contra hmem
      rw [List.dropWhile_eq_nil_iff.2 (Fields.bne_of_notMem hmem)] at hcut
      cases hcut
    have hvalue : valueOfLine line = value.dropLast := by
      unfold valueOfLine
      rw [hcut]
      rfl
    rw [hvalue]
    by_cases hlast : line.getLast? = some '\n'
    · rw [if_neg (by simp [hlast]), getField_netUnreachable]
      simp [hmem, hlast, keyOfLine]
    · rw [if_pos hlast]
      simp [hlast]

-- The empty line is not the line of an endpoint.
theorem NotFound.ne_empty (h : NotFound sys line) : line ≠ ['\n'] := by
  rintro rfl
  exact absurd h.2.1 (by decide)

variable {lines : List Bytes}

theorem readReply_netUnreachable :
    readReply sys st lines = .error .netUnreachable ↔ Reaches sys st lines := by
  induction lines generalizing st with
  | nil =>
    constructor
    · intro h
      cases h
    · rintro ⟨pre, line, post, st', hlines, -⟩
      simp at hlines
  | cons line lines ih =>
    rw [readReply]
    constructor
    · intro h
      split at h
      · split at h <;> cases h
      · next hline =>
        cases hstep : getLine sys st line with
        | error e =>
          rw [hstep] at h
          cases h
          obtain ⟨hpeers, hnone⟩ := getLine_netUnreachable.1 hstep
          exact ⟨[], line, lines, st, rfl, List.not_mem_nil, rfl, hpeers, hnone⟩
        | ok st₁ =>
          rw [hstep] at h
          obtain ⟨pre, line', post, st', rfl, hpre, hrun, hrest⟩ := ih.1 h
          refine ⟨line :: pre, line', post, st', rfl, ?_, ?_, hrest⟩
          · rw [List.mem_cons, not_or]
            exact ⟨fun heq => hline heq.symm, hpre⟩
          · rw [List.foldlM_cons, hstep]
            exact hrun
    · rintro ⟨pre, line', post, st', hlines, hpre, hrun, hpeers, hnone⟩
      cases pre with
      | nil =>
        cases hlines
        cases hrun
        rw [if_neg hnone.ne_empty, getLine_netUnreachable.2 ⟨hpeers, hnone⟩]
        rfl
      | cons line₁ pre =>
        cases hlines
        rw [List.mem_cons, not_or] at hpre
        obtain ⟨st₁, hstep, hrun⟩ := Loops.foldlM_cons_eq_ok.1 hrun
        rw [if_neg (fun heq => hpre.1 heq.symm), hstep]
        exact ih.2 ⟨pre, line', post, st', rfl, hpre.2, hrun, hpeers, hnone⟩

/-- Every peer so far has its public key, and `errno` is from a line that was read. -/
structure Sound (st : GetState Addr) (read : List Bytes) : Prop where
  publicKeys : ∀ p ∈ st.device.peers, p.publicKey ≠ none
  errno : ∀ n ∈ st.errno, ∃ line ∈ read, keyOfLine line = "errno".toList ∧
    num 2147483647 (valueOfLine line) = some n

theorem getLine_sound {read : List Bytes} (h : getLine sys st line = .ok st') (hst : Sound st read) :
    Sound st' (read ++ [line]) := by
  have herrno : ∀ n ∈ st.errno, ∃ l ∈ read ++ [line], keyOfLine l = "errno".toList ∧
      num 2147483647 (valueOfLine l) = some n := by
    intro n hn
    obtain ⟨l, hl, hkey⟩ := hst.errno n hn
    exact ⟨l, List.mem_append_left _ hl, hkey⟩
  cases getField_cases (getLine_eq_ok h).1 with
  | device k d hpeers hkey hd =>
    refine ⟨?_, herrno⟩
    show ∀ p ∈ d.peers, _
    rw [WgDevice.getField_peers hd]
    exact hst.publicKeys
  | publicKey k hkey =>
    refine ⟨?_, herrno⟩
    show ∀ p ∈ st.device.peers ++ [_], _
    rw [List.forall_mem_append]
    refine ⟨hst.publicKeys, ?_⟩
    intro p hp
    rw [List.mem_singleton.1 hp]
    exact Option.some_ne_none k
  | peer k done p p' hpeers hpublic hkey hp =>
    have hkeys := hst.publicKeys
    rw [hpeers, List.forall_mem_append, List.forall_mem_singleton] at hkeys
    refine ⟨?_, herrno⟩
    show ∀ p ∈ done ++ [p'], _
    rw [List.forall_mem_append, List.forall_mem_singleton, (WgPeer.getField_ips hp).1]
    exact hkeys
  | errno n hkey hvalue =>
    refine ⟨hst.publicKeys, ?_⟩
    intro m hm
    cases hm
    exact ⟨line, by simp, hkey, hvalue⟩
  | other => exact ⟨hst.publicKeys, herrno⟩

theorem readReply_ok {read : List Bytes} (h : readReply sys st lines = .ok d) (hst : Sound st read) :
    (∀ p ∈ d.peers, p.publicKey ≠ none) ∧ Finished (read ++ lines) := by
  induction lines generalizing st read with
  | nil => cases h
  | cons line lines ih =>
    obtain ⟨hline, herrno, rfl⟩ | ⟨-, st₁, hstep, hrest⟩ := readReply_cons_ok h
    · exact ⟨hst.publicKeys, read, lines, by rw [hline], hst.errno 0 herrno⟩
    · have hlines : read ++ line :: lines = read ++ [line] ++ lines := by simp
      rw [hlines]
      exact ih hrest (getLine_sound hstep hst)

variable {n : Nat}

theorem readReply_errno_ne_zero (h : readReply sys st lines = .error (.errno n)) : n ≠ 0 := by
  induction lines generalizing st with
  | nil => cases h
  | cons line lines ih =>
    rw [readReply] at h
    split at h
    · split at h
      · cases h
      · cases h
      · next m hzero herrno =>
        cases h
        exact hzero
    · cases hstep : getLine sys st line with
      | ok st₁ =>
        rw [hstep] at h
        exact ih h
      | error e =>
        rw [hstep] at h
        cases h
        unfold getLine at hstep
        split at hstep
        · cases hstep
        split at hstep
        · cases hstep
        · -- a field that fails gives no number of its own
          obtain h | ⟨h, -⟩ := getField_eq_error hstep <;> cases h

def replyLines (reply : Bytes) : List Bytes := (getlines reply).map cstr

/-- Number and pointer agree, so that no `NULL` is used as a device, if and only if the reader never
gets to an endpoint whose host is not found. -/
theorem getDevice_agree_iff (sys : Resolver Addr) (reply : Bytes) :
    (Agree (replyLines reply) (getResult (userspaceGetDevice sys reply)) ∧
      showMain (getResult (userspaceGetDevice sys reply)) ≠ .usesNull) ↔
        ¬ Reaches sys {} (replyLines reply) := by
  rw [← readReply_netUnreachable]
  change _ ↔ userspaceGetDevice sys reply ≠ _
  constructor
  · rintro ⟨-, hshown⟩ hfail
    rw [hfail] at hshown
    exact hshown rfl
  · intro hne
    cases hget : userspaceGetDevice sys reply with
    | ok d =>
      have hst : Sound ({} : GetState Addr) [] :=
        ⟨fun p hp => absurd hp List.not_mem_nil, fun n hn => by cases hn⟩
      obtain ⟨hkeys, hfinished⟩ := readReply_ok hget hst
      exact ⟨.inl ⟨rfl, d, rfl, hkeys, hfinished⟩, by rintro ⟨⟩⟩
    | error e =>
      cases e with
      | proto =>
        have hneg : (-71 : Int) < 0 := by decide
        exact ⟨.inr ⟨hneg, rfl⟩, by rintro ⟨⟩⟩
      | netUnreachable => exact absurd hget hne
      | errno n =>
        have hn := readReply_errno_ne_zero hget
        have hneg : (getResult (.error (.errno n)) : Int × Option (WgDevice Addr)).1 < 0 := by
          show -(n : Int) < 0
          omega
        refine ⟨.inr ⟨hneg, rfl⟩, ?_⟩
        unfold showMain
        rw [if_pos hneg]
        rintro ⟨⟩

def nowhereReply : Bytes :=
  [UapiField.line ("public_key", keyToHex zeroKey), "endpoint=nowhere:51820".toList, "errno=0".toList,
    []].flatMap (· ++ ['\n'])

/-- A positive number, and `NULL`. -/
theorem nowhereReply_uses_null :
    getResult (userspaceGetDevice unknownResolver nowhereReply) = (101, none) ∧
      showMain (getResult (userspaceGetDevice unknownResolver nowhereReply)) = .usesNull :=
  ⟨rfl, rfl⟩

/-! ## Prefix lengths -/

def Written (sys : Resolver Addr) (ip : WgAllowedIp Addr) (value : Bytes) : Prop :=
  ∃ text mask, value = text ++ '/' :: mask ∧ '/' ∉ text ∧
    parseIp sys text = .ok (ip.family, ip.ip) ∧ Decimal mask ip.cidr ∧ ip.cidr ≤ ip.family.maxCidr

def EightBits (value : Bytes) : Prop :=
  ∀ text mask n, value = text ++ '/' :: mask → '/' ∉ text → Decimal mask n → n < 256

def allowedIpValues (lines : List Bytes) : List Bytes :=
  lines.filterMap fun line => allowedIpOf (keyOfLine line) (valueOfLine line)

def cutPeers (lines : List Bytes) : List Bytes × List (Bytes × List Bytes) :=
  Fields.cut (fun line => keyOfLine line == "public_key".toList) (lines.takeWhile (· != ['\n']))

def peerBlocks (reply : Bytes) : List (Bytes × List Bytes) := (cutPeers (replyLines reply)).2

-- What `char_is_digit` accepts is neither a blank nor a sign.
theorem not_blank_of_charIsDigit {c : Char} (h : charIsDigit c = true) :
    isspace c = false ∧ c ≠ '-' ∧ c ≠ '+' := by
  have hspace : ∀ b : BitVec 8,
      (((47 - b.setWidth 32) &&& (b.setWidth 32 - 58)) >>> 31 != (0 : BitVec 32)) = true →
        (b.toNat == 32 || decide (9 ≤ b.toNat ∧ b.toNat ≤ 13)) = false := by
    decide +kernel
  refine ⟨hspace (code c) h, ?_, ?_⟩
  · rintro rfl
    exact absurd h (by decide)
  · rintro rfl
    exact absurd h (by decide)

variable {mask : Bytes}

-- A number that `strtoul` reads to its end is decimal.
theorem decimal_of_strtoul (hdigit : mask.head?.any charIsDigit = true)
    (hrest : (strtoul mask).2 = []) :
    ∃ n, Decimal mask n ∧ (strtoul mask).1 = min ulongMax n := by
  cases mask with
  | nil => cases hdigit
  | cons c cs =>
    by_cases hc : c.isDigit = true
    · rw [strtoul_of_isDigit hc] at hrest ⊢
      have hall := List.dropWhile_eq_nil_iff.1 hrest
      refine ⟨_, ⟨List.cons_ne_nil c cs, hall, rfl⟩, ?_⟩
      rw [List.takeWhile_eq_self_iff.2 hall]
    · -- `strtoul` stops before the first character
      obtain ⟨hspace, hminus, hplus⟩ := not_blank_of_charIsDigit hdigit
      have hsign : sign ((c :: cs).dropWhile isspace) = (false, c :: cs) := by
        rw [List.dropWhile_cons_of_neg (by simp [hspace]), sign.eq_3]
        · exact fun t ht => hminus (List.cons.inj ht).1
        · exact fun t ht => hplus (List.cons.inj ht).1
      unfold strtoul strtoulUpTo at hrest
      simp only [hsign, List.takeWhile_cons_of_neg hc, if_true] at hrest
      cases hrest

variable {v : Bytes}

theorem Decimal.unique {m : Nat} (hm : Decimal v m) (hn : Decimal v n) : m = n :=
  hm.2.2.symm.trans hn.2.2

variable {text : Bytes}

-- The text before the first slash and the one after it are what they are.
theorem strsep_eq (h : strsep '/' v = (text, some mask)) :
    v = text ++ '/' :: mask ∧ '/' ∉ text := by
  unfold strsep at h
  split at h
  · cases h
  · next c rest hcut =>
    cases h
    have hc := Fields.head_dropWhile (· != '/') v c (by simp [hcut])
    have hslash : c = '/' := by simpa using hc
    subst hslash
    refine ⟨?_, fun hmem => ?_⟩
    · rw [← hcut, List.takeWhile_append_dropWhile]
    · simpa using List.mem_takeWhile_imp hmem

theorem getAllowedIp_eq_some {ip : WgAllowedIp Addr} (h : getAllowedIp sys v = some ip) :
    ∃ text mask n, v = text ++ '/' :: mask ∧ '/' ∉ text ∧
      parseIp sys text = .ok (ip.family, ip.ip) ∧ Decimal mask n ∧ ip.cidr = n % 256 ∧
        ip.cidr ≤ ip.family.maxCidr := by
  unfold getAllowedIp at h
  split at h
  · cases h
  next text mask hsep =>
  obtain ⟨hv, htext⟩ := strsep_eq hsep
  split at h
  · cases h
  next hdigit =>
  simp only at h
  split at h
  · cases h
  next family addr hparsed =>
  split at h
  · cases h
  next hcond =>
  rw [not_or, not_not, Nat.not_lt] at hcond
  obtain ⟨n, hn, hvalue⟩ := decimal_of_strtoul (by simpa using hdigit) hcond.1
  have hmax := family.maxCidr_le
  have hle := hcond.2
  cases h
  refine ⟨text, mask, n, hv, htext, ?_, hn, ?_, hle⟩
  · unfold parseIp
    split at hparsed
    · next hcolon =>
      obtain ⟨a, ha, hpair⟩ := Option.map_eq_some_iff.1 hparsed
      cases hpair
      rw [if_pos hcolon, ha]
    · next hcolon =>
      obtain ⟨a, ha, hpair⟩ := Option.map_eq_some_iff.1 hparsed
      cases hpair
      rw [if_neg hcolon, ha]
  · -- a number that `strtoul` cannot hold comes to 255
    show (strtoul mask).1 % 256 = n % 256
    rw [hvalue] at hle ⊢
    unfold ulongMax at hle ⊢
    omega

theorem eq_of_slash {text' mask' : Bytes} (heq : text ++ '/' :: mask = text' ++ '/' :: mask')
    (htext : '/' ∉ text) (htext' : '/' ∉ text') : text' = text ∧ mask' = mask := by
  have hsep := strsep_append htext' mask'
  rw [← heq, strsep_append htext] at hsep
  simpa using hsep.symm

theorem eightBits_iff {text mask : Bytes} {n : Nat} (htext : '/' ∉ text) (hn : Decimal mask n) :
    EightBits (text ++ '/' :: mask) ↔ n < 256 := by
  constructor
  · intro h
    exact h text mask n rfl htext hn
  · intro h text' mask' m heq htext' hm
    obtain ⟨rfl, rfl⟩ := eq_of_slash heq htext htext'
    rw [hm.unique hn]
    exact h

theorem written_iff {ip : WgAllowedIp Addr} (h : getAllowedIp sys v = some ip) :
    Written sys ip v ↔ EightBits v := by
  obtain ⟨text, mask, n, rfl, htext, hparse, hn, hcidr, hmax⟩ := getAllowedIp_eq_some h
  rw [eightBits_iff htext hn]
  constructor
  · rintro ⟨text', mask', heq, htext', -, hdecimal, -⟩
    obtain ⟨rfl, rfl⟩ := eq_of_slash heq htext htext'
    have hmaxCidr := ip.family.maxCidr_le
    rw [hn.unique hdecimal]
    omega
  · intro hsmall
    refine ⟨text, mask, rfl, htext, hparse, ?_, hmax⟩
    rw [hcidr, Nat.mod_eq_of_lt hsmall]
    exact hn

/-! ## The allowed IPs of each peer -/

def HasIpsOf (sys : Resolver Addr) (p : WgPeer Addr) (block : Bytes × List Bytes) : Prop :=
  IpsOf sys p.allowedIps (allowedIpValues block.2)

theorem cutPeers_empty (lines : List Bytes) : cutPeers (['\n'] :: lines) = ([], []) := rfl

theorem cutPeers_publicKey (hline : line ≠ ['\n']) (hkey : keyOfLine line = "public_key".toList)
    (lines : List Bytes) :
    cutPeers (line :: lines) = ([], (line, (cutPeers lines).1) :: (cutPeers lines).2) := by
  unfold cutPeers
  rw [List.takeWhile_cons_of_pos (by simpa using hline), Fields.cut, if_pos (by simp [hkey])]

theorem cutPeers_other (hline : line ≠ ['\n']) (hkey : keyOfLine line ≠ "public_key".toList)
    (lines : List Bytes) :
    cutPeers (line :: lines) = (line :: (cutPeers lines).1, (cutPeers lines).2) := by
  unfold cutPeers
  rw [List.takeWhile_cons_of_pos (by simpa using hline), Fields.cut, if_neg (by simpa using hkey)]

theorem allowedIpValues_cons (line : Bytes) (lines : List Bytes) :
    allowedIpValues (line :: lines) =
      (allowedIpOf (keyOfLine line) (valueOfLine line)).toList ++ allowedIpValues lines := by
  unfold allowedIpValues
  rw [List.filterMap_cons]
  cases allowedIpOf (keyOfLine line) (valueOfLine line) <;> rfl

-- In a peer: the lines up to the next public key add to it, and the blocks are further peers.
theorem readReply_inPeer {done : List (WgPeer Addr)} (hpeers : st.device.peers = done ++ [p])
    (h : readReply sys st lines = .ok d) :
    ∃ p' rest ips, d.peers = done ++ p' :: rest ∧ p'.allowedIps = p.allowedIps ++ ips ∧
      IpsOf sys ips (allowedIpValues (cutPeers lines).1) ∧
      List.Forall₂ (HasIpsOf sys) rest (cutPeers lines).2 := by
  induction lines generalizing st done p with
  | nil => cases h
  | cons line lines ih =>
    obtain ⟨rfl, -, rfl⟩ | ⟨hline, st₁, hstep, hrest⟩ := readReply_cons_ok h
    · rw [cutPeers_empty]
      exact ⟨p, [], [], hpeers, by simp, .nil, .nil⟩
    have hne : st.device.peers ≠ [] := by simp [hpeers]
    cases getField_cases (getLine_eq_ok hstep).1 with
    | device _ _ hempty => exact absurd hempty hne
    | publicKey k hkey =>
      rw [cutPeers_publicKey hline hkey]
      obtain ⟨q, rest, ips, hd, hips, hvalues, hblocks⟩ :=
        ih (show st.device.peers ++ [{ publicKey := some k }] = _ from rfl) hrest
      rw [hpeers, List.append_assoc] at hd
      refine ⟨p, q :: rest, [], hd, by simp, .nil, .cons ?_ hblocks⟩
      unfold HasIpsOf
      rw [hips]
      exact hvalues
    | peer k done' p₀ p₁ hpeers' hpublic hkey hp =>
      obtain ⟨rfl, hlast⟩ := List.append_inj' (hpeers.symm.trans hpeers') rfl
      cases hlast
      obtain ⟨-, ips₁, hips₁, hvalue⟩ := WgPeer.getField_ips hp
      rw [← allowedIpOf_peerKey hkey] at hvalue
      rw [cutPeers_other hline hpublic, allowedIpValues_cons]
      obtain ⟨q, rest, ips, hd, hips, hvalues, hblocks⟩ := ih rfl hrest
      refine ⟨q, rest, ips₁ ++ ips, hd, ?_, List.rel_append hvalue hvalues, hblocks⟩
      rw [hips, hips₁, List.append_assoc]
    | errno n hkey hvalue =>
      have hnone : allowedIpOf (keyOfLine line) (valueOfLine line) = none := by
        unfold allowedIpOf
        rw [hkey]
        exact if_neg (by decide)
      rw [cutPeers_other hline (by rw [hkey]; decide), allowedIpValues_cons, hnone]
      refine ih ?_ hrest
      exact hpeers
    | other hpublic _ hpeer =>
      rw [cutPeers_other hline hpublic, allowedIpValues_cons,
        allowedIpOf_eq_none (hpeer.resolve_left hne)]
      exact ih hpeers hrest

-- Before the first peer nothing is added.
theorem readReply_noPeer (hpeers : st.device.peers = []) (h : readReply sys st lines = .ok d) :
    List.Forall₂ (HasIpsOf sys) d.peers (cutPeers lines).2 := by
  induction lines generalizing st with
  | nil => cases h
  | cons line lines ih =>
    obtain ⟨rfl, -, rfl⟩ | ⟨hline, st₁, hstep, hrest⟩ := readReply_cons_ok h
    · rw [hpeers]
      exact .nil
    cases getField_cases (getLine_eq_ok hstep).1 with
    | device k d' _ hkey hd' =>
      rw [cutPeers_other hline (ne_public_key hkey)]
      exact ih ((WgDevice.getField_peers hd').trans hpeers) hrest
    | publicKey k hkey =>
      rw [cutPeers_publicKey hline hkey]
      obtain ⟨q, rest, ips, hd, hips, hvalues, hblocks⟩ :=
        readReply_inPeer (show st.device.peers ++ [{ publicKey := some k }] = _ from rfl) hrest
      rw [hpeers, List.nil_append] at hd
      rw [hd]
      refine .cons ?_ hblocks
      unfold HasIpsOf
      rw [hips]
      exact hvalues
    | peer k done p p' hpeers' =>
      rw [hpeers] at hpeers'
      simp at hpeers'
    | errno n hkey _ =>
      rw [cutPeers_other hline (by rw [hkey]; decide)]
      refine ih ?_ hrest
      exact hpeers
    | other hpublic =>
      rw [cutPeers_other hline hpublic]
      exact ih hpeers hrest

/-- Every peer of a device that was read has exactly the allowed IPs of its lines, with the prefix
lengths that are written there, if and only if these are numbers of eight bits. -/
theorem allowedIps_written_iff {reply : Bytes} {d : WgDevice Addr}
    (h : userspaceGetDevice sys reply = .ok d) :
    List.Forall₂ (fun p block => List.Forall₂ (Written sys) p.allowedIps (allowedIpValues block.2))
        d.peers (peerBlocks reply) ↔
      ∀ block ∈ peerBlocks reply, ∀ value ∈ allowedIpValues block.2, EightBits value := by
  have hblocks : List.Forall₂ (HasIpsOf sys) d.peers (peerBlocks reply) := readReply_noPeer rfl h
  apply Loops.forall₂_iff_forall hblocks
  intro p block hips
  exact Loops.forall₂_iff_forall hips fun ip value hvalue => written_iff hvalue

def peersReply (peers : List (Key × String)) : Bytes :=
  peers.flatMap (fun p => [("public_key", keyToHex p.1), ("allowed_ip", p.2.toList)].flatMap
    (fun f => UapiField.line f ++ ['\n'])) ++ "errno=0\n\n".toList

def twoPeerReply : Bytes := peersReply [(zeroKey, "10.0.0.2/32"), (secondKey, "fd00::2/128")]

def writtenPeers : List (WgPeer Bool) :=
  [{ publicKey := some zeroKey, allowedIps := [⟨.inet, false, 32⟩] },
    { publicKey := some secondKey, allowedIps := [⟨.inet6, true, 128⟩] }]

theorem peerBlocks_twoPeers : (peerBlocks twoPeerReply).map (fun block => allowedIpValues block.2) =
    [["10.0.0.2/32".toList], ["fd00::2/128".toList]] := by
  decide +kernel

theorem twoPeers_written :
    userspaceGetDevice pairResolver twoPeerReply = .ok { peers := writtenPeers } ∧
      List.Forall₂ (fun (p : WgPeer Bool) block =>
        List.Forall₂ (Written pairResolver) p.allowedIps (allowedIpValues block.2))
        writtenPeers (peerBlocks twoPeerReply) := by
  have hread : userspaceGetDevice pairResolver twoPeerReply = .ok { peers := writtenPeers } := rfl
  refine ⟨hread, (allowedIps_written_iff hread).2 ?_⟩
  intro block hblock value hvalue
  have hmem := List.mem_map_of_mem (f := fun block => allowedIpValues block.2) hblock
  rw [peerBlocks_twoPeers, List.mem_pair] at hmem
  rcases hmem with hmem | hmem
  · have hdigits : ∀ c ∈ "32".toList, c.isDigit = true := List.all_eq_true.1 (by decide)
    rw [hmem, List.mem_singleton] at hvalue
    rw [hvalue]
    exact (@eightBits_iff "10.0.0.2".toList _ 32 (by decide) ⟨by decide, hdigits, rfl⟩).2 (by decide)
  · have hdigits : ∀ c ∈ "128".toList, c.isDigit = true := List.all_eq_true.1 (by decide)
    rw [hmem, List.mem_singleton] at hvalue
    rw [hvalue]
    exact (@eightBits_iff "fd00::2".toList _ 128 (by decide) ⟨by decide, hdigits, rfl⟩).2 (by decide)

/-- 288 comes to 32 in eight bits. -/
theorem onePeer_prefix_288 :
    userspaceGetDevice pairResolver (peersReply [(zeroKey, "10.0.0.2/288")]) =
      .ok { peers := [{ publicKey := some zeroKey, allowedIps := [⟨.inet, false, 32⟩] }] } :=
  rfl

end

end Amnezia.Tools
