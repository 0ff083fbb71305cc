import Sisyphus.Pci.BarProbe

/-!
# BAR sizing is fail-closed

The probe is run on a configuration space that keeps a log of its accesses (`Logged`), and what is
proved about it is proved for every space whose registers obey `Registers`, that is, for every
pattern of failing and ignored accesses.

The argument follows the probe through three phases.  Until decoding is disabled it only reads
(`Untouched`).  While the BARs are sized and written back, the last readback of the command register
had decoding and bus mastering off (`Sizing`).  After the first readback of the command register
that follows, no BAR is written any more, and the log alone says which BARs are intact (`Intact`).
-/

set_option autoImplicit false

namespace Sisyphus.Pci

open Fallible List

/-! ## A log of the accesses -/

/-- An access with its result; a write only reports whether it succeeded. -/
inductive Access
  | readU32 (offset : UInt8) (result : Option UInt32)
  | writeU32 (offset : UInt8) (value : UInt32) (ok : Bool)
  | readCommand (result : Option UInt16)
  | writeCommand (value : UInt16) (ok : Bool)

namespace Access

/-- Whether an access is to the dword at `offset`. -/
def isTo (offset : UInt8) : Access → Bool
  | readU32 o _ => o == offset
  | writeU32 o _ _ => o == offset
  | readCommand _ => false
  | writeCommand _ _ => false

def isRead : Access → Bool
  | readU32 _ _ | readCommand _ => true
  | writeU32 _ _ _ | writeCommand _ _ => false

end Access

/-- A configuration space with the accesses made to it, the latest first. -/
structure Logged (σ : Type) where
  space : σ
  log : List Access

section Logging

variable {σ α : Type}

def record (entry : Option α → Access) (x : EStateM Unit σ α) : EStateM Unit (Logged σ) α :=
    fun l =>
  match x l.space with
  | .ok a t => .ok a ⟨t, entry (some a) :: l.log⟩
  | .error _ t => .error () ⟨t, entry none :: l.log⟩

instance [ConfigurationSpace σ] : ConfigurationSpace (Logged σ) where
  readU32 offset := record (.readU32 offset) (readU32 offset)
  writeU32 offset value := record (fun r => .writeU32 offset value r.isSome) (writeU32 offset value)
  readCommand := record .readCommand readCommand
  writeCommand value := record (fun r => .writeCommand value r.isSome) (writeCommand value)

theorem ensures_record {entry : Option α → Access} {x : EStateM Unit σ α} {l : Logged σ}
    {Q : α → Logged σ → Prop} {E : Unit → Logged σ → Prop} :
    Ensures (record entry x) l Q E ↔ Ensures x l.space (fun a t => Q a ⟨t, entry (some a) :: l.log⟩)
        fun _ t => E () ⟨t, entry none :: l.log⟩ := by
  rw [Ensures, record, Ensures]
  cases x l.space <;> rfl

end Logging

/-! ## What a log can show -/

/-- What the latest read of the command register returned, if there was one and it succeeded. -/
def lastReadback : List Access → Option UInt16
  | [] => none
  | .readCommand result :: _ => result
  | _ :: older => lastReadback older

/-- No dword was written unless the last command readback before had I/O decode, memory decode and
bus mastering all clear. -/
def Guarded : List Access → Prop
  | [] => True
  | .writeU32 _ _ _ :: older =>
    (∃ command, lastReadback older = some command ∧ command &&& commandDecodeAndMaster = 0) ∧
      Guarded older
  | _ :: older => Guarded older

/-- Once a BAR is sized, every BAR is written back: sizing has begun when a dword was written. -/
def SizingBegan (log : List Access) : Prop :=
  ∃ offset value ok, Access.writeU32 offset value ok ∈ log

/-- Every value written to the command register left decoding and bus mastering off. -/
def NeverReenabled (log : List Access) : Prop :=
  ∀ value ok, Access.writeCommand value ok ∈ log → value &&& commandDecodeAndMaster = 0

/-- The latest access to the BAR was a read, and it returned `value`. -/
def Intact (log : List Access) (index : Fin barCount) (value : UInt32) : Prop :=
  log.find? (Access.isTo (barOffset index)) = some (.readU32 (barOffset index) (some value))

/-! Each kind of access adds to a log only what concerns it. -/

variable {r : Option UInt32} {ok : Bool}

section Cons

variable {log : List Access} {a : Access} {offset : UInt8} {index i : Fin barCount} {v : UInt32}

@[simp] theorem sizingBegan_nil : ¬SizingBegan [] := by simp [SizingBegan]

theorem sizingBegan_read (h : a.isRead = true) : SizingBegan (a :: log) ↔ SizingBegan log := by
  cases a <;> simp_all [Access.isRead, SizingBegan]

@[simp] theorem sizingBegan_writeCommand {d : UInt16} :
    SizingBegan (.writeCommand d ok :: log) ↔ SizingBegan log := by simp [SizingBegan]

@[simp] theorem neverReenabled_nil : NeverReenabled [] := by simp [NeverReenabled]

theorem neverReenabled_read (h : a.isRead = true) :
    NeverReenabled (a :: log) ↔ NeverReenabled log := by
  cases a <;> simp_all [Access.isRead, NeverReenabled]

theorem guarded_read (h : a.isRead = true) : Guarded (a :: log) ↔ Guarded log := by
  cases a <;> simp_all [Access.isRead, Guarded]

@[simp] theorem neverReenabled_writeU32 :
    NeverReenabled (.writeU32 offset v ok :: log) ↔ NeverReenabled log := by simp [NeverReenabled]

@[simp] theorem neverReenabled_writeCommand {d : UInt16} :
    NeverReenabled (.writeCommand d ok :: log) ↔
      d &&& commandDecodeAndMaster = 0 ∧ NeverReenabled log := by
  constructor
  · intro h
    exact ⟨h d ok mem_cons_self, fun e k hmem => h e k (mem_cons_of_mem _ hmem)⟩
  · rintro ⟨hd, h⟩ e k hmem
    obtain heq | hmem := mem_cons.mp hmem
    · obtain ⟨rfl, -⟩ := Access.writeCommand.inj heq
      exact hd
    · exact h e k hmem

@[simp] theorem intact_readCommand {r : Option UInt16} :
    Intact (.readCommand r :: log) i v ↔ Intact log i v := Iff.rfl

/-- A read decides whether its BAR is intact, and says nothing about the others. -/
theorem intact_readU32 : Intact (.readU32 (barOffset index) r :: log) i v ↔
    (i = index ∧ r = some v) ∨ (i ≠ index ∧ Intact log i v) := by
  by_cases h : i = index
  · subst h
    simp [Intact, find?, Access.isTo]
  · have hne : (barOffset index == barOffset i) = false := by
      simpa [barOffset_inj] using fun h' => h h'.symm
    simp [Intact, find?, Access.isTo, hne, h]

/-- Before the first write of a dword there is nothing to guard. -/
theorem guarded_of_not_sizingBegan (h : ¬SizingBegan log) : Guarded log := by
  induction log with
  | nil => trivial
  | cons a older ih =>
    have hold : Guarded older := by
      refine ih ?_
      rintro ⟨o, v, k, hmem⟩
      exact h ⟨o, v, k, mem_cons_of_mem a hmem⟩
    cases a with
    | writeU32 o v k => exact absurd ⟨o, v, k, mem_cons_self⟩ h
    | readU32 o r | readCommand r | writeCommand d k => exact hold

end Cons

/-! ## The accesses of a logged space -/

section Proofs

variable {σ : Type} [ConfigurationSpace σ] (c : Registers σ)

/-- Neither the command register nor a BAR has changed. -/
structure Same (l t : Logged σ) : Prop where
  command : c.command t.space = c.command l.space
  bar : c.bar t.space = c.bar l.space

variable {t : Logged σ}

variable {c} in
theorem Same.trans {l u : Logged σ} (h : Same c l t) (h' : Same c t u) : Same c l u :=
  ⟨h'.command.trans h.command, h'.bar.trans h.bar⟩

theorem ensures_logged_readU32 (offset : UInt8) (l : Logged σ) : Ensures (readU32 offset) l
      (fun v t => Same c l t ∧ t.log = .readU32 offset (some v) :: l.log)
      fun _ t => Same c l t ∧ t.log = .readU32 offset none :: l.log := by
  change Ensures (record _ _) _ _ _
  rw [ensures_record]
  exact ((c.read_u32 l.space offset).and (c.read_u32_bar l.space offset)).mono
    (fun _ _ h => ⟨⟨h.1, h.2⟩, rfl⟩) fun _ _ h => ⟨⟨h.1, h.2⟩, rfl⟩

theorem ensures_logged_readBar (index : Fin barCount) (l : Logged σ) :
    Ensures (readU32 (barOffset index)) l (fun v t => v = c.bar l.space index ∧ Same c l t ∧
        t.log = .readU32 (barOffset index) (some v) :: l.log)
      fun _ t => Same c l t ∧ t.log = .readU32 (barOffset index) none :: l.log := by
  have hvalue : Ensures (readU32 (barOffset index)) l (fun v _ => v = c.bar l.space index)
      fun _ _ => True := by
    change Ensures (record _ _) _ _ _
    rw [ensures_record]
    exact c.read_bar l.space index
  exact (hvalue.and (ensures_logged_readU32 c _ l)).imp_error fun _ _ h => h.2

theorem ensures_logged_readCommand (l : Logged σ) : Ensures readCommand l
      (fun v t => v = c.command l.space ∧ Same c l t ∧ t.log = .readCommand (some v) :: l.log)
      fun _ t => Same c l t ∧ t.log = .readCommand none :: l.log := by
  change Ensures (record _ _) _ _ _
  rw [ensures_record]
  exact ((c.read_command l.space).and (c.read_command_bar l.space)).mono
    (fun _ _ h => ⟨h.1.1, ⟨h.1.2, h.2⟩, rfl⟩) fun _ _ h => ⟨⟨h.1, h.2⟩, rfl⟩

theorem ensures_logged_writeBar (index : Fin barCount) (v : UInt32) (l : Logged σ) :
    Ensures (writeU32 (barOffset index) v) l (fun _ t => c.command t.space = c.command l.space ∧
        t.log = .writeU32 (barOffset index) v true :: l.log)
      fun _ t => c.command t.space = c.command l.space ∧
        t.log = .writeU32 (barOffset index) v false :: l.log := by
  change Ensures (record _ _) _ _ _
  rw [ensures_record]
  exact (c.write_bar l.space index v).mono (fun _ _ h => ⟨h.1, rfl⟩) fun _ _ h => ⟨h.1, rfl⟩

theorem ensures_logged_writeCommand (v : UInt16) (l : Logged σ) : Ensures (writeCommand v) l
      (fun _ t => c.bar t.space = c.bar l.space ∧ t.log = .writeCommand v true :: l.log)
      fun _ t => c.bar t.space = c.bar l.space ∧ t.log = .writeCommand v false :: l.log := by
  change Ensures (record _ _) _ _ _
  rw [ensures_record]
  exact (c.write_command l.space v).mono (fun _ _ h => ⟨h, rfl⟩) fun _ _ h => ⟨h, rfl⟩

/-! ## Before decoding is disabled -/

/-- The registers are those of `s`, and nothing was written. -/
structure Untouched (s : σ) (l : Logged σ) : Prop where
  command : c.command l.space = c.command s
  bar : c.bar l.space = c.bar s
  unsized : ¬SizingBegan l.log
  quiet : NeverReenabled l.log

variable {c} {s : σ} {l : Logged σ}

theorem Untouched.of_read {a : Access} (h : Untouched c s l) (hsame : Same c l t)
    (hlog : t.log = a :: l.log) (ha : a.isRead = true) : Untouched c s t where
  command := hsame.command.trans h.command
  bar := hsame.bar.trans h.bar
  unsized := by simpa [hlog, sizingBegan_read ha] using h.unsized
  quiet := by simpa [hlog, neverReenabled_read ha] using h.quiet

theorem Untouched.ensures_read (h : Untouched c s l) (offset : UInt8) :
    Ensures (read offset) l (fun _ t => Untouched c s t) fun _ t => Untouched c s t := by
  rw [read, ensures_mapErr]
  exact (ensures_logged_readU32 c offset l).mono (fun _ _ ht => h.of_read ht.1 ht.2 rfl)
    fun _ _ ht => h.of_read ht.1 ht.2 rfl

/-- The snapshot is the BARs as they are. -/
theorem Untouched.ensures_readSnapshot (h : Untouched c s l) :
    Ensures readSnapshot l (fun bars t => bars = c.bar s ∧ Untouched c s t)
      fun _ t => Untouched c s t := by
  refine (ensures_foldlM (I := fun done bars t =>
    (∀ i ∈ done, bars i = c.bar s i) ∧ Untouched c s t) ⟨by simp, h⟩ ?_).imp_ok ?_
  · rintro done index rest - bars t ⟨hdone, ht⟩
    rw [ensures_bind, read, ensures_mapErr]
    refine (ensures_logged_readBar c index t).mono (fun v u hu => ?_)
      fun _ _ hu => ht.of_read hu.1 hu.2 rfl
    refine ⟨fun i hi => ?_, ht.of_read hu.2.1 hu.2.2 rfl⟩
    by_cases hix : i = index
    · rw [hix, Function.update_self, hu.1, ht.bar]
    · rw [Function.update_of_ne hix]
      exact hdone i (by simpa [hix] using hi)
  · rintro bars t ⟨hall, ht⟩
    exact ⟨funext fun i => hall i (mem_finRange i), ht⟩

/-! ## While decoding is disabled -/

/-- The command register holds `d`, which decodes nothing, and the log has nothing against it. -/
structure Disabled (c : Registers σ) (d : UInt16) (l : Logged σ) : Prop where
  command : c.command l.space = d
  clear : d &&& commandDecodeAndMaster = 0
  guarded : Guarded l.log
  quiet : NeverReenabled l.log

/-- Moreover `d` is what the last readback of the command register returned. -/
structure Sizing (c : Registers σ) (d : UInt16) (l : Logged σ) : Prop extends Disabled c d l where
  readback : lastReadback l.log = some d

variable {d : UInt16}

theorem Disabled.of_read {a : Access} (h : Disabled c d l) (hsame : Same c l t)
    (hlog : t.log = a :: l.log) (ha : a.isRead = true) : Disabled c d t where
  command := hsame.command.trans h.command
  clear := h.clear
  guarded := by simpa [hlog, guarded_read ha] using h.guarded
  quiet := by simpa [hlog, neverReenabled_read ha] using h.quiet

section

variable (h : Sizing c d l)
include h

theorem Sizing.of_readU32 {offset : UInt8} (hsame : Same c l t)
    (hlog : t.log = .readU32 offset r :: l.log) : Sizing c d t where
  toDisabled := h.toDisabled.of_read hsame hlog rfl
  readback := hlog ▸ h.readback

/-- A dword may be written now: the last readback stands right behind the write. -/
theorem Sizing.of_writeU32 {offset : UInt8} {v : UInt32}
    (hcommand : c.command t.space = c.command l.space)
    (hlog : t.log = .writeU32 offset v ok :: l.log) : Sizing c d t where
  command := hcommand.trans h.command
  clear := h.clear
  guarded := by
    rw [hlog]
    exact ⟨⟨d, h.readback, h.clear⟩, h.guarded⟩
  quiet := by simpa [hlog] using h.quiet
  readback := hlog ▸ h.readback

theorem Sizing.ensures_read (offset : UInt8) :
    Ensures (read offset) l (fun _ t => Sizing c d t) fun _ t => Sizing c d t := by
  rw [read, ensures_mapErr]
  exact (ensures_logged_readU32 c offset l).mono (fun _ _ ht => h.of_readU32 ht.1 ht.2)
    fun _ _ ht => h.of_readU32 ht.1 ht.2

theorem Sizing.ensures_write (index : Fin barCount) (v : UInt32) :
    Ensures (write (barOffset index) v) l (fun _ t => Sizing c d t) fun _ t => Sizing c d t := by
  rw [write, ensures_mapErr]
  exact (ensures_logged_writeBar c index v l).mono (fun _ _ ht => h.of_writeU32 ht.1 ht.2)
    fun _ _ ht => h.of_writeU32 ht.1 ht.2

theorem Sizing.ensures_sizeDword (index : Fin barCount)
    (decode : UInt32 → Except BarProbeError UInt64) :
    Ensures (sizeDword index decode) l (fun _ t => Sizing c d t) fun _ t => Sizing c d t := by
  simp only [sizeDword, ensures_rules]
  refine (h.ensures_write index _).imp_ok (fun _ t ht => ?_)
  exact (ht.ensures_read _).imp_ok (fun _ u hu => ⟨fun _ _ => hu, fun _ _ => hu⟩)

theorem Sizing.ensures_sizePair (index high : Fin barCount)
    (decode : UInt32 → UInt32 → Except BarProbeError UInt64) :
    Ensures (sizePair index high decode) l (fun _ t => Sizing c d t) fun _ t => Sizing c d t := by
  simp only [sizePair, ensures_rules]
  refine (h.ensures_write index _).imp_ok (fun _ t ht => ?_)
  refine (ht.ensures_write high _).imp_ok (fun _ t ht => ?_)
  refine (ht.ensures_read _).imp_ok (fun _ t ht => ?_)
  exact (ht.ensures_read _).imp_ok (fun _ u hu => ⟨fun _ _ => hu, fun _ _ => hu⟩)

end

/-- Wherever sizing stops, decoding is still disabled. -/
theorem Sizing.ensures_sizeBarsFrom (snapshot : BarSnapshot) (todo : List (Fin barCount))
    (lengths : BarLengths) (h : Sizing c d l) :
    Ensures (sizeBarsFrom snapshot todo lengths) l (fun _ t => Sizing c d t)
      fun _ t => Sizing c d t := by
  induction todo using twoStepInduction generalizing lengths l with
  | nil => exact h
  | singleton index =>
    simp only [sizeBarsFrom, ensures_ite, ensures_rules, h, h.ensures_sizeDword]
  | cons_cons index high rest ihrest ih =>
    rw [sizeBarsFrom]
    simp only [ensures_ite, ensures_rules, h, and_true]
    refine ⟨fun _ _ => ?_, fun _ => ⟨fun _ => ?_, fun _ _ => ?_⟩⟩
    iterate 2 exact (h.ensures_sizeDword index _).imp_ok (fun _ _ ht => ih high _ ht)
    · exact (h.ensures_sizePair index high _).imp_ok (fun _ _ ht => ihrest _ ht)

/-! ## Restoring -/

variable {ε : Type}

theorem Sizing.ensures_restoreBars (h : Sizing c d l) (snapshot : BarSnapshot) :
    Ensures (restoreBars snapshot : EStateM ε (Logged σ) _) l (fun _ t => Sizing c d t)
      fun _ _ => False := by
  refine ensures_foldlM (I := fun _ _ t => Sizing c d t) h ?_
  rintro done index rest - fault t ht
  rw [ensures_bind, ensures_attempt]
  exact (ensures_logged_writeBar c index (snapshot index) t).mono
    (fun _ _ hu => ht.of_writeU32 hu.1 hu.2) fun _ _ hu => ht.of_writeU32 hu.1 hu.2

/-- Looking at the command register adds one read to the log, and can only add a fault. -/
theorem Disabled.ensures_observeDisabled (h : Disabled c d l) (fault : Option BarRestoreFault) :
    Ensures (observeDisabled d fault : EStateM ε (Logged σ) _) l
      (fun r t => Disabled c d t ∧ Same c l t ∧ (∃ result, t.log = .readCommand result :: l.log) ∧
        (r.1 = none → fault = none))
      fun _ _ => False := by
  rw [observeDisabled, ensures_bind, ensures_attempt]
  refine (ensures_logged_readCommand c l).mono (fun v t ht => ?_) fun _ t ht => ?_
  · have hd := h.of_read ht.2.1 ht.2.2 rfl
    simp only [ensures_ite, ensures_pure]
    refine ⟨fun _ => ⟨hd, ht.2.1, ⟨_, ht.2.2⟩, id⟩, fun _ => ⟨hd, ht.2.1, ⟨_, ht.2.2⟩, fun hnone =>
      ?_⟩⟩
    exact (Option.or_eq_none_iff.mp hnone).1
  · refine ⟨h.of_read ht.1 ht.2 rfl, ht.1, ⟨_, ht.2⟩, fun hnone => ?_⟩
    exact (Option.or_eq_none_iff.mp hnone).1

/-- The bitmap of a list of BARs. -/
def maskOf (indices : List (Fin barCount)) : UInt8 :=
  indices.foldl (fun mask index => mask ||| (1 <<< UInt8.ofNat index.val)) 0

theorem named_or {mask : UInt8} {i index : Fin barCount} :
    named (mask ||| (1 <<< UInt8.ofNat index.val)) i = true ↔ i = index ∨ named mask i = true := by
  have hsplit : ∀ a b : UInt8, (mask ||| a) &&& b = mask &&& b ||| a &&& b := fun a b =>
    UInt8.toBitVec_inj.mp BitVec.and_or_distrib_right
  have hbit : ∀ j k : Fin barCount,
      (1 <<< UInt8.ofNat j.val : UInt8) &&& (1 <<< UInt8.ofNat k.val) = 0 ↔ k ≠ j := by decide
  rw [named, hsplit, bne_iff_ne, Ne, UInt8.or_eq_zero_iff, hbit, named, bne_iff_ne]
  tauto

/-- What the verification loop knows when it has read the BARs of `done`. -/
structure Verified (c : Registers σ) (d : UInt16) (snapshot : BarSnapshot) (l : Logged σ)
    (fault : Option BarRestoreFault) (done : List (Fin barCount))
    (r : UInt8 × Option BarRestoreFault) (t : Logged σ) : Prop where
  disabled : Disabled c d t
  same : Same c l t
  exact : ∀ i, named r.1 i = true ↔ i ∈ done ∧ Intact t.log i (snapshot i)
  complete : r.2 = none →
    fault = none ∧ r.1 = maskOf done ∧ ∀ i ∈ done, c.bar l.space i = snapshot i

/-- One more BAR read: it is intact if the read says so, and the others are as before. -/
theorem mem_and_intact_readU32 {done : List (Fin barCount)} {index i : Fin barCount}
    {log : List Access} {snapshot : BarSnapshot} (hnew : index ∉ done) :
    (i ∈ done ++ [index] ∧ Intact (.readU32 (barOffset index) r :: log) i (snapshot i)) ↔
      (i = index ∧ r = some (snapshot index)) ∨ (i ∈ done ∧ Intact log i (snapshot i)) := by
  rw [intact_readU32, mem_append, mem_singleton]
  by_cases h : i = index
  · subst h
    simp [hnew]
  · simp [h]

theorem Disabled.ensures_verifyBars (h : Disabled c d l) (snapshot : BarSnapshot)
    (fault : Option BarRestoreFault) :
    Ensures (verifyBars snapshot fault : EStateM ε (Logged σ) _) l
      (fun r t => Verified c d snapshot l fault (finRange barCount) r t)
      fun _ _ => False := by
  refine ensures_foldlM (I := Verified c d snapshot l fault) ?_ ?_
  · exact ⟨h, ⟨rfl, rfl⟩, by simp [named], fun hf => ⟨hf, rfl, by simp⟩⟩
  · rintro done index rest hsplit ⟨mask, fault'⟩ t ht
    have hnew : index ∉ done := by
      have hnodup := nodup_finRange barCount
      rw [hsplit] at hnodup
      exact fun hmem => disjoint_of_nodup_append hnodup hmem mem_cons_self
    simp only [ensures_bind, ensures_attempt]
    refine (ensures_logged_readBar c index t).mono (fun v u hu => ?_) fun _ u hu => ?_
    · obtain ⟨hv, hsame, hlog⟩ := hu
      simp only [ensures_ite, ensures_pure]
      refine ⟨fun hv' => ?_, fun hv' => ?_⟩
      · refine ⟨ht.disabled.of_read hsame hlog rfl, ht.same.trans hsame, fun i => ?_, fun hf => ?_⟩
        · rw [named_or, ht.exact, hlog, mem_and_intact_readU32 hnew, hv']
          simp
        · obtain ⟨hfault, hmask, hbars⟩ := ht.complete hf
          refine ⟨hfault, (congrArg (· ||| _) hmask).trans (by simp [maskOf]), fun i hi => ?_⟩
          obtain hi | hi := mem_append.mp hi
          · exact hbars i hi
          · rw [mem_singleton.mp hi, ← ht.same.bar, ← hv, hv']
      · refine ⟨ht.disabled.of_read hsame hlog rfl, ht.same.trans hsame, fun i => ?_, fun hf => ?_⟩
        · rw [ht.exact, hlog, mem_and_intact_readU32 hnew]
          simp [hv']
        · simp at hf
    · obtain ⟨hsame, hlog⟩ := hu
      refine ⟨ht.disabled.of_read hsame hlog rfl, ht.same.trans hsame, fun i => ?_, fun hf => ?_⟩
      · rw [ht.exact, hlog, mem_and_intact_readU32 hnew]
        simp
      · simp at hf

/-- The restore path ends with every BAR read back as it was, or with a debt whose bitmap names
exactly the BARs that were. -/
theorem Sizing.ensures_restoreAndVerifyBars (h : Sizing c d l) (address : PciAddress)
    (snapshot : BarSnapshot) :
    Ensures (restoreAndVerifyBars address snapshot d) l
      (fun mask t => mask = allBarsRestored ∧ Disabled c d t ∧
        (∀ i, Intact t.log i (snapshot i)) ∧ c.bar t.space = snapshot)
      fun e t => Guarded t.log ∧ ∃ debt, e = .restorationDebt debt ∧
        ∀ i, named debt.restoredBarMask i = true ↔ Intact t.log i (snapshot i) := by
  simp only [restoreAndVerifyBars, ensures_bind]
  refine (h.ensures_restoreBars snapshot).mono (fun fault t ht => ?_) fun _ _ hf => hf.elim
  refine (ht.toDisabled.ensures_observeDisabled fault).mono ?_ fun _ _ hf => hf.elim
  rintro ⟨fault', state⟩ u ⟨hu, -, -, -⟩
  refine (hu.ensures_verifyBars snapshot fault').mono ?_ fun _ _ hf => hf.elim
  rintro ⟨mask, fault''⟩ v hv
  refine (hv.disabled.ensures_observeDisabled fault'').mono ?_ fun _ _ hf => hf.elim
  rintro ⟨last, state'⟩ w ⟨hw, hsame, ⟨result, hlog⟩, hlast⟩
  have hexact : ∀ i, named mask i = true ↔ Intact w.log i (snapshot i) := by
    intro i
    rw [hv.exact, hlog, intact_readCommand]
    simp
  cases last with
  | some fault => exact ⟨hw.guarded, _, rfl, hexact⟩
  | none =>
    obtain ⟨-, hmask, hbars⟩ := hv.complete (hlast rfl)
    have hall : mask = allBarsRestored := hmask.trans (by decide)
    refine ⟨hall, hw, fun i => (hexact i).mp ?_, funext fun i => ?_⟩
    · rw [hall]
      revert i
      decide
    · rw [hsame.bar, hv.same.bar, hbars i (mem_finRange i)]

/-! ## The probe -/

/-- After a failure, either sizing had not begun, or every BAR was read back as it was with
decoding left off, or there is a debt whose bitmap names exactly the BARs that were. -/
structure FailClosed (c : Registers σ) (s : σ) (e : BarProbeError) (t : Logged σ) : Prop where
  guarded : Guarded t.log
  closed : SizingBegan t.log →
    ((∀ i, Intact t.log i (c.bar s i)) ∧ NeverReenabled t.log ∧
      c.command t.space &&& commandDecodeAndMaster = 0) ∨
    ∃ debt, e = .restorationDebt debt ∧
      ∀ i, named debt.restoredBarMask i = true ↔ Intact t.log i (c.bar s i)

theorem FailClosed.of_not_sizingBegan {e : BarProbeError} (h : ¬SizingBegan t.log) :
    FailClosed c s e t :=
  ⟨guarded_of_not_sizingBegan h, fun h' => absurd h' h⟩

theorem Untouched.failClosed {e : BarProbeError} (h : Untouched c s l) : FailClosed c s e l :=
  .of_not_sizingBegan h.unsized

/-- Sizing begins only after the disabled command was read back. -/
theorem Untouched.ensures_quiesce (h : Untouched c s l) (address : PciAddress) (command : UInt16) :
    Ensures (quiesce address command) l
      (fun _ t => Sizing c (command &&& ~~~commandDecodeAndMaster) t ∧ c.bar t.space = c.bar s)
      fun e t => FailClosed c s e t := by
  have hclear : command &&& ~~~commandDecodeAndMaster &&& commandDecodeAndMaster = 0 := by
    rw [UInt16.and_assoc, show ~~~commandDecodeAndMaster &&& commandDecodeAndMaster = 0 from rfl,
      UInt16.and_zero]
  simp only [quiesce, ensures_bind, ensures_attempt]
  refine (ensures_logged_writeCommand c _ l).mono (fun _ t ht => ?_) fun _ t ht => ?_
  · obtain ⟨hbar, hlog⟩ := ht
    have hunsized : ¬SizingBegan t.log := by simpa [hlog] using h.unsized
    have hquiet : NeverReenabled t.log := by simpa [hlog] using ⟨hclear, h.quiet⟩
    refine (ensures_logged_readCommand c t).mono (fun v u hu => ?_) fun _ u hu => ?_
    · obtain ⟨hv, hsame, hlog'⟩ := hu
      have hunsized' : ¬SizingBegan u.log := by
        rwa [hlog', sizingBegan_read rfl]
      simp only [ensures_refuse]
      refine ⟨fun _ => .of_not_sizingBegan hunsized', fun hok => ?_⟩
      obtain ⟨hdisabled, -⟩ : v = command &&& ~~~commandDecodeAndMaster ∧ _ := by simpa using hok
      refine ⟨⟨⟨?_, hclear, guarded_of_not_sizingBegan hunsized', ?_⟩, ?_⟩, ?_⟩
      · rw [hsame.command, ← hv, hdisabled]
      · rwa [hlog', neverReenabled_read rfl]
      · rw [hlog', ← hdisabled]
        rfl
      · rw [hsame.bar, hbar, h.bar]
    · exact .of_not_sizingBegan (by rwa [hu.2, sizingBegan_read rfl])
  · exact .of_not_sizingBegan (by simpa [ht.2] using h.unsized)

/-- Giving memory decoding back touches no BAR; when it cannot be seen to succeed, the debt names
them all. -/
theorem Disabled.ensures_recommit (h : Disabled c d l) (hbar : c.bar l.space = c.bar s)
    (hintact : ∀ i, Intact l.log i (c.bar s i)) (address : PciAddress) (command : UInt16) :
    Ensures (recommit address command allBarsRestored) l
      (fun _ t => Guarded t.log ∧ c.bar t.space = c.bar s ∧
        c.command t.space = command &&& ~~~(commandIoSpace ||| commandBusMaster))
      fun e t => FailClosed c s e t := by
  have hall : ∀ i, named allBarsRestored i = true := by decide
  simp only [recommit, ensures_bind, ensures_attempt]
  have howed : ∀ (fault : BarRestoreFault) (state : BarCommandState) (t : Logged σ),
      Guarded t.log → (∀ i, Intact t.log i (c.bar s i)) →
      FailClosed c s (restorationDebt address fault allBarsRestored state) t := by
    intro fault state t hguarded ht
    exact ⟨hguarded, fun _ => .inr ⟨_, rfl, fun i => iff_of_true (hall i) (ht i)⟩⟩
  refine (ensures_logged_writeCommand c _ l).mono (fun _ t ht => ?_) fun _ t ht => ?_
  · obtain ⟨hbar', hlog⟩ := ht
    refine (ensures_logged_readCommand c t).mono (fun v u hu => ?_) fun _ u hu => ?_
    · obtain ⟨hv, hsame, hlog'⟩ := hu
      have hguarded : Guarded u.log := by rw [hlog', hlog]; exact h.guarded
      simp only [ensures_refuse]
      refine ⟨fun _ => howed _ _ u hguarded fun i => ?_, fun hok => ⟨hguarded, ?_, ?_⟩⟩
      · rw [hlog', hlog]
        exact hintact i
      · rw [hsame.bar, hbar', hbar]
      · rw [hsame.command, ← hv]
        simpa using hok
    · refine howed _ _ u (by rw [hu.2, hlog]; exact h.guarded) fun i => ?_
      rw [hu.2, hlog]
      exact hintact i
  · refine howed _ _ t (by rw [ht.2]; exact h.guarded) fun i => ?_
    rw [ht.2]
    exact hintact i

/-- Once sizing has begun, every way out goes through the restore path. -/
theorem Sizing.ensures_concludeProbe {command : UInt16}
    (h : Sizing c (command &&& ~~~commandDecodeAndMaster) l) (address : PciAddress)
    (requireBar0Lease : Bool) (probe : Except BarProbeError BarLengths) :
    Ensures (concludeProbe address requireBar0Lease command (c.bar s) probe) l
      (fun _ t => Guarded t.log ∧ c.bar t.space = c.bar s ∧
        c.command t.space = command &&& ~~~(commandIoSpace ||| commandBusMaster))
      fun e t => FailClosed c s e t := by
  simp only [concludeProbe, ensures_rules]
  refine (h.ensures_restoreAndVerifyBars address (c.bar s)).mono ?_ ?_
  · rintro mask t ⟨rfl, hdisabled, hintact, hbar⟩
    have hclosed : ∀ e, FailClosed c s e t := fun e =>
      ⟨hdisabled.guarded, fun _ =>
        .inl ⟨hintact, hdisabled.quiet, hdisabled.command ▸ hdisabled.clear⟩⟩
    refine ⟨fun e _ => hclosed e, fun lengths _ => ⟨fun e _ => hclosed e, fun lease _ => ?_⟩⟩
    exact hdisabled.ensures_recommit hbar hintact address command
  · rintro e t ⟨hguarded, hdebt⟩
    exact ⟨hguarded, fun _ => .inr hdebt⟩

/-- **BAR sizing is fail-closed.**  Whatever becomes of the accesses, no BAR is written unless the
last command readback had I/O decode, memory decode and bus mastering clear.  A probe that succeeds
leaves every BAR as it was, and the command register with I/O decode and bus mastering cleared and
nothing else changed.  A probe that fails after sizing began has either read back all six BARs as
they were and left decoding off, or owes a debt whose bitmap names exactly the BARs read back. -/
theorem bar_probe_fail_closed (c : Registers σ) (s : σ) (address : PciAddress)
    (requireBar0Lease : Bool) (expected : Option PciExpectedConfiguration) :
    Ensures (probeBarLengths address requireBar0Lease expected) (⟨s, []⟩ : Logged σ)
      (fun _ t => Guarded t.log ∧ c.bar t.space = c.bar s ∧
        c.command t.space = c.command s &&& ~~~(commandIoSpace ||| commandBusMaster))
      fun e t => FailClosed c s e t := by
  have hstart : Untouched c s (⟨s, []⟩ : Logged σ) := ⟨rfl, rfl, by simp, by simp⟩
  simp only [probeBarLengths, ensures_rules, ensures_mapErr, ensures_attempt]
  refine ⟨fun _ => hstart.failClosed, fun _ => ?_⟩
  refine (hstart.ensures_read _).mono (fun _ t ht => ⟨fun _ => ht.failClosed, fun _ => ?_⟩)
    fun _ _ ht => ht.failClosed
  refine (ht.ensures_read _).mono (fun _ t ht => ?_) fun _ _ ht => ht.failClosed
  refine (ht.ensures_read _).mono (fun _ t ht => ⟨fun _ => ht.failClosed, fun _ => ?_⟩)
    fun _ _ ht => ht.failClosed
  refine (ensures_logged_readCommand c t).mono (fun command u hu => ?_)
    fun _ _ hu => (ht.of_read hu.1 hu.2 rfl).failClosed
  obtain rfl : command = c.command s := hu.1.trans ht.command
  refine (ht.of_read hu.2.1 hu.2.2 rfl).ensures_readSnapshot.mono ?_ fun _ _ ht => ht.failClosed
  rintro bars v ⟨rfl, hv⟩
  refine ⟨fun _ _ => hv.failClosed, fun _ _ => ?_⟩
  refine (hv.ensures_quiesce address _).imp_ok (fun _ w hw => ?_)
  exact (hw.1.ensures_sizeBarsFrom (c.bar s) _ _).mono
    (fun _ _ hx => hx.ensures_concludeProbe address requireBar0Lease _)
    fun _ _ hx => hx.ensures_concludeProbe address requireBar0Lease _

end Proofs

end Sisyphus.Pci
