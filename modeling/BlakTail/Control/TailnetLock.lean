import BlakTail.Foundation.Fallible
import BlakTail.Foundation.Hex

/-!
# Admission Statements

A statement is signed over its fields with bars between them.  The numbers can be read back from
the end of that text, but the organisation, the node and the key may hold bars themselves
(`canonical_eq_iff`), so `admission_binds_iff` asks for all ways to cut a signed text.
-/

namespace BlakTail.Control

open Foundation

def ADMISSION_PROTO_VERSION : Nat := 1

inductive AdmissionError where
  | emptySecret
  | badSignature
  | badSignatureEncoding
  | orgMismatch (expected found : String)
  | staleEpoch (found minimum : Nat)
  | outsideWindow (now opens closes : Int)
  | invalidWindow (opens closes : Int)
  | unsupportedVersion (found : Nat)
  | badPubkey
  deriving DecidableEq

structure AdmissionStatement where
  orgId : String
  nodeId : String
  pubkeyB64 : String
  epoch : Nat
  validFrom : Int
  validTo : Int
  protoVersion : Nat
  deriving DecidableEq

namespace AdmissionStatement

/-- The part of the signed text that is free-form. -/
def subject (stmt : AdmissionStatement) : String :=
  stmt.orgId ++ "|" ++ stmt.nodeId ++ "|" ++ stmt.pubkeyB64

def canonical (stmt : AdmissionStatement) : String :=
  "blaktail-admission-v1|" ++ stmt.subject ++ "|" ++ toString stmt.epoch ++ "|" ++
    toString stmt.validFrom ++ "|" ++ toString stmt.validTo ++ "|" ++ toString stmt.protoVersion

/-- The fields that are not free-form. -/
def numbers (stmt : AdmissionStatement) : Nat × Int × Int × Nat :=
  (stmt.epoch, stmt.validFrom, stmt.validTo, stmt.protoVersion)

end AdmissionStatement

def encodeHex (bytes : List UInt8) : String := String.ofList (Hex.encode bytes)

def decodeHex (text : String) : Except AdmissionError (List UInt8) :=
  if Text.byteLen text % 2 ≠ 0 ∨ text = "" then .error .badSignatureEncoding
  else match Hex.decode text.toList with
    | some bytes => .ok bytes
    | none => .error .badSignatureEncoding

-- what base64 takes as a key, and HMAC-SHA256 of a message under a secret
variable (decodes : String → Bool) (hmac : List UInt8 → String → Vector UInt8 32)
  (signed : List AdmissionStatement) (stmt : AdmissionStatement) (rootSecret : List UInt8)

def signAdmission : String := encodeHex (hmac rootSecret stmt.canonical).toList

/-- `verify_slice` of an ideal MAC: a tag verifies only for a message that was signed. -/
def verifySlice (message : String) (presented : List UInt8) : Bool :=
  presented = (hmac rootSecret message).toList && message ∈ signed.map (·.canonical)

def verifyAdmission (signatureHex expectedOrgId : String) (minEpoch : Nat) (nowSecs : Int) :
    Except AdmissionError Unit := do
  failIf (rootSecret = []) .emptySecret
  failIf (!decodes (Text.trim stmt.pubkeyB64)) .badPubkey
  let presented ← decodeHex (Text.trim signatureHex)
  failIf (!verifySlice hmac signed rootSecret stmt.canonical presented) .badSignature
  failIf (stmt.orgId ≠ expectedOrgId) (.orgMismatch expectedOrgId stmt.orgId)
  failIf (stmt.protoVersion ≠ ADMISSION_PROTO_VERSION) (.unsupportedVersion stmt.protoVersion)
  failIf (stmt.epoch < minEpoch) (.staleEpoch stmt.epoch minEpoch)
  failIf (stmt.validTo < stmt.validFrom) (.invalidWindow stmt.validFrom stmt.validTo)
  failIf (nowSecs < stmt.validFrom || stmt.validTo < nowSecs)
    (.outsideWindow nowSecs stmt.validFrom stmt.validTo)

/-! ## The signed text -/

theorem last_bar {front rest front' rest' : String} (hrest : '|' ∉ rest.toList)
    (hrest' : '|' ∉ rest'.toList) :
    front ++ "|" ++ rest = front' ++ "|" ++ rest' ↔ front = front' ∧ rest = rest' := by
  refine ⟨fun h => ?_, fun h => by rw [h.1, h.2]⟩
  have hbar : "|".toList = ['|'] := rfl
  have hchars := congrArg String.toList h
  simp only [String.toList_append, hbar, List.append_assoc, List.singleton_append] at hchars
  have hsplit := Text.rsplitOnceChars_eq_some.mpr ⟨hchars, hrest'⟩
  rw [Text.rsplitOnceChars_eq_some.mpr ⟨rfl, hrest⟩] at hsplit
  simpa only [Option.some.injEq, Prod.mk.injEq, String.toList_inj] using hsplit

theorem toString_int_no_bar (z : Int) : '|' ∉ (toString z).toList := by
  cases z with
  | ofNat n => exact Text.toString_no (n := n) (by decide)
  | negSucc n =>
    show '|' ∉ ("-" ++ toString (n + 1)).toList
    rw [String.toList_append, List.mem_append]
    exact fun hmem => hmem.elim (by decide) (Text.toString_no (by decide))

/-- The numbers hold no bar, so they can be cut off from the end. -/
theorem canonical_eq_iff {s t : AdmissionStatement} :
    s.canonical = t.canonical ↔ s.subject = t.subject ∧ s.numbers = t.numbers := by
  have hnat : ∀ n : Nat, '|' ∉ (toString n).toList := fun n => Text.toString_no (by decide)
  unfold AdmissionStatement.canonical AdmissionStatement.numbers
  rw [last_bar (hnat s.protoVersion) (hnat t.protoVersion),
    last_bar (toString_int_no_bar s.validTo) (toString_int_no_bar t.validTo),
    last_bar (toString_int_no_bar s.validFrom) (toString_int_no_bar t.validFrom),
    last_bar (hnat s.epoch) (hnat t.epoch)]
  simp [and_assoc]

/-- No field of the subject holds a bar. -/
def AdmissionStatement.Barless (stmt : AdmissionStatement) : Prop :=
  '|' ∉ stmt.orgId.toList ∧ '|' ∉ stmt.nodeId.toList ∧ '|' ∉ stmt.pubkeyB64.toList

/-- A subject without bars in its fields has two bars, so there is one way to cut it. -/
theorem subject_inj {s t : AdmissionStatement} (hs : s.Barless) (h : t.subject = s.subject) :
    t.orgId = s.orgId ∧ t.nodeId = s.nodeId ∧ t.pubkeyB64 = s.pubkeyB64 := by
  have hbars := congrArg (fun text => text.toList.count '|') h
  have hbar : "|".toList.count '|' = 1 := rfl
  simp only [AdmissionStatement.subject, String.toList_append, List.count_append, hbar,
    List.count_eq_zero_of_not_mem hs.1, List.count_eq_zero_of_not_mem hs.2.1,
    List.count_eq_zero_of_not_mem hs.2.2] at hbars
  have hnode : '|' ∉ t.nodeId.toList := List.count_eq_zero.mp (by omega)
  have hkey : '|' ∉ t.pubkeyB64.toList := List.count_eq_zero.mp (by omega)
  unfold AdmissionStatement.subject at h
  rw [last_bar hkey hs.2.2, last_bar hnode hs.2.1] at h
  exact ⟨h.1.1, h.1.2, h.2⟩

/-! ## What is accepted -/

theorem decodeHex_encodeHex {bytes : List UInt8} (hne : bytes ≠ []) :
    decodeHex (Text.trim (encodeHex bytes)) = .ok bytes := by
  have htrim : Text.trim (encodeHex bytes) = encodeHex bytes := by
    apply Text.trim_eq_self
    rw [encodeHex, String.toList_ofList]
    exact Hex.encode_forall (by decide) bytes
  have hsize : Text.byteLen (encodeHex bytes) = 2 * bytes.length := by
    have hone : ∀ c ∈ Hex.encode bytes, c.utf8Size = 1 := Hex.encode_forall (by decide) bytes
    rw [Text.byteLen, encodeHex, String.toList_ofList, List.map_congr_left hone]
    simp [Hex.length_encode]
  have hfull : encodeHex bytes ≠ "" := by
    intro h
    have hempty : Text.byteLen "" = 0 := rfl
    have hpos := List.length_pos_iff.mpr hne
    rw [h] at hsize
    omega
  rw [htrim, decodeHex, if_neg (by rw [hsize]; simp [hfull]), encodeHex, String.toList_ofList,
    Hex.decode_encode]

theorem tag_ne_nil (message : String) : (hmac rootSecret message).toList ≠ [] :=
  List.ne_nil_of_length_pos (by rw [Vector.length_toList]; decide)

/-- Some presentation is accepted. -/
def Accepted : Prop := ∃ signatureHex expectedOrgId minEpoch nowSecs,
  verifyAdmission decodes hmac signed stmt rootSecret signatureHex expectedOrgId minEpoch nowSecs =
    .ok ()

/-- The checks that do not depend on the presentation. -/
def Fit : Prop :=
  rootSecret ≠ [] ∧ decodes (Text.trim stmt.pubkeyB64) ∧
    stmt.protoVersion = ADMISSION_PROTO_VERSION ∧ stmt.validFrom ≤ stmt.validTo

theorem accepted_iff :
    Accepted decodes hmac signed stmt rootSecret ↔
      Fit decodes stmt rootSecret ∧ stmt.canonical ∈ signed.map (·.canonical) := by
  simp only [Accepted, verifyAdmission, bind_ok_iff, failIf_eq_ok, verifySlice, Fit]
  constructor
  · rintro ⟨_, _, _, _, -, hsecret, -, hkey, _, -, -, htag, -, -, -, hversion, -, -, -, hwindow, -⟩
    simp only [Bool.not_eq_false', Bool.and_eq_true, decide_eq_true_eq] at hkey htag
    exact ⟨⟨of_decide_eq_false hsecret, hkey, by simpa using hversion, by simpa using hwindow⟩,
      htag.2⟩
  · rintro ⟨⟨hsecret, hkey, hversion, hwindow⟩, hsigned⟩
    -- the signature that was given, shown to its own organisation when its window opens
    exact ⟨signAdmission hmac stmt rootSecret, stmt.orgId, 0, stmt.validFrom, (), by simpa, (),
      by simpa, _, decodeHex_encodeHex (tag_ne_nil hmac rootSecret _), (), by simpa using hsigned,
        (), by simp, (), by simpa,
      (), by simp, (), by simpa, by simpa⟩

/-- **Accepted statements are signed ones**, exactly if every acceptable way to cut the fields out
of a signed text gives a signed statement; so where no signed organisation, node or key holds a
bar. -/
theorem admission_binds_iff :
    ((∀ stmt, Accepted decodes hmac signed stmt rootSecret → stmt ∈ signed) ↔
      ∀ s ∈ signed, ∀ stmt, stmt.subject = s.subject → stmt.numbers = s.numbers →
        Fit decodes stmt rootSecret → stmt ∈ signed) ∧
    ((∀ s ∈ signed, s.Barless) →
      ∀ stmt, Accepted decodes hmac signed stmt rootSecret → stmt ∈ signed) := by
  refine ⟨⟨?_, ?_⟩, ?_⟩
  · intro h s hs stmt hsubject hnumbers hfit
    have htext : s.canonical = stmt.canonical := (canonical_eq_iff.mpr ⟨hsubject, hnumbers⟩).symm
    exact h stmt ((accepted_iff ..).mpr ⟨hfit, List.mem_map.mpr ⟨s, hs, htext⟩⟩)
  · intro h stmt haccepted
    obtain ⟨hfit, hsigned⟩ := (accepted_iff ..).mp haccepted
    obtain ⟨s, hs, htext⟩ := List.mem_map.mp hsigned
    obtain ⟨hsubject, hnumbers⟩ := canonical_eq_iff.mp htext
    exact h s hs stmt hsubject.symm hnumbers.symm hfit
  · intro hbarless stmt haccepted
    obtain ⟨s, hs, htext⟩ := List.mem_map.mp ((accepted_iff ..).mp haccepted).2
    obtain ⟨hsubject, hnumbers⟩ := canonical_eq_iff.mp htext
    obtain ⟨horg, hnode, hkey⟩ := subject_inj (hbarless s hs) hsubject.symm
    simp only [AdmissionStatement.numbers, Prod.mk.injEq] at hnumbers
    -- every field is that of the signed statement
    obtain ⟨_, _, _, _, _, _, _⟩ := stmt
    obtain ⟨_, _, _, _, _, _, _⟩ := s
    simp_all

/-- A statement for the node `b|c` of `a` admits the node `c` of `a|b`, whatever the MAC. -/
theorem admission_recut :
    let stmt : AdmissionStatement := ⟨"a", "b|c", "AAAA", 7, -1, 9, 1⟩
    let other := { stmt with orgId := "a|b", nodeId := "c" }
    (∀ hmac, verifyAdmission (fun _ => true) hmac [stmt] other [1] (signAdmission hmac stmt [1])
      "a|b" 7 0 = .ok ()) ∧ other ∉ [stmt] := by
  intro stmt other
  refine ⟨fun hmac => ?_, by decide⟩
  have htext : other.canonical = stmt.canonical := by decide +kernel
  simp only [verifyAdmission, bind_ok_iff, failIf_eq_ok, verifySlice, htext]
  exact ⟨(), by decide, (), by decide, _, decodeHex_encodeHex (tag_ne_nil hmac [1] _),
    (), by simp, (),
    by decide, (), by decide, (), by decide, (), by decide, by decide⟩

end BlakTail.Control
