import GameBoy.Proofs.Board.Slot

/-!
# External memory

Through the window at `0xa000` a program sees a memory of cells, one bank at a time. Banks count
around, so that a cell can be reached through more than one of them. A cell holds the last byte that
was written to it while it could be reached.

* `History.cell?`: the cell that an address reaches after some writes.
* `History.stored?`: the last byte that was written to a cell.
* `History.Recalled`: reads and writes through the window are those of such a memory.
-/

namespace GameBoy

/-! ## Cells -/

namespace History

/-- The number of the cell that an address means in a bank of a memory of `size` bytes. There is at
least one bank. The cells of half bytes repeat throughout the window. -/
def cellIn (k : Controller.Kind) (size : Nat) (a : UInt16) (bank : Nat) : Nat :=
  bank % max 1 (size / 0x2000) * 0x2000 +
    if k = .mbc2 then (a.toNat - 0xa000) % 0x200 else a.toNat - 0xa000

/-- The cell that an address reaches after some writes: none unless the memory is open, a bank of it
is selected, and the bank goes so far. -/
def cell? (h : History) (k : Controller.Kind) (size : Nat) (a : UInt16) : Option Nat :=
  if Cartridge.isExternal a ∧ h.isOpen k then
    ((h.ramBank? k).map (cellIn k size a)).filter (· < size)
  else none

/-- The last byte that was written to a cell, in writes that follow earlier ones. -/
def stored? (k : Controller.Kind) (size : Nat) (earlier : History) (i : Nat) :
    History → Option UInt8
  | [] => none
  | w :: h =>
    if cell? (h ++ earlier) k size w.1 = some i then some w.2 else stored? k size earlier i h

/-- What is kept of a byte, of which a half may be all. -/
def kept (k : Controller.Kind) (v : UInt8) : UInt8 := if k = .mbc2 then v &&& 0x0f else v

/-- What a program sees of a byte, or of half of it. -/
def seen (k : Controller.Kind) (v : UInt8) : UInt8 := if k = .mbc2 then 0xf0 ||| (v &&& 0x0f) else v

theorem seen_kept (k : Controller.Kind) (v : UInt8) : seen k (kept k v) = seen k v := by
  unfold seen kept
  split
  · rw [UInt8.and_assoc]
    rfl
  · rfl

/-- Undriven bits hide half of a byte. -/
theorem seen_half (v : UInt8) : 0xf0 ||| v = seen .mbc2 v :=
  forall_byte (P := fun v => 0xf0 ||| v = seen .mbc2 v) (by decide +kernel) v

theorem cell?_lt {h : History} {k : Controller.Kind} {size i : Nat} {a : UInt16}
    (hcell : h.cell? k size a = some i) : i < size := by
  unfold cell? at hcell
  split at hcell
  · have := (Option.filter_eq_some_iff.1 hcell).2
    simpa using this
  · cases hcell

end History

/-! ## What the window shows -/

namespace Controller

/-- What the writes so far tell of the window at `0xa000`. -/
inductive Shows (c : Controller) (h : History) : Prop
  | closed (hopen : h.isOpen c.kind = false) (hshown : c.external = .closed)
  | other (hopen : h.isOpen c.kind = true) (hbank : h.ramBank? c.kind = none)
      (hbanks : ∀ n, c.external ≠ .bank n) (hhalves : c.external ≠ .halves)
  | halves (hkind : c.kind = .mbc2) (hopen : h.isOpen c.kind = true)
      (hbank : h.ramBank? c.kind = some 0) (hshown : c.external = .halves)
  | bank (n : Nat) (hkind : c.kind ≠ .mbc2) (hopen : h.isOpen c.kind = true)
      (hbank : h.ramBank? c.kind = some n) (hshown : c.external = .bank n)

theorem Follows.shows {c : Controller} {h : History} (hc : c.Follows h) : c.Shows h := by
  cases c with
  | fixed => exact .bank 0 nofun rfl rfl rfl
  | mbc1 r =>
    obtain ⟨hopen, -, hhigh, hadvanced⟩ := hc
    cases his : r.isOpen with
    | false => exact .closed (hopen.symm.trans his) (by simp [external, his])
    | true =>
      refine .bank (if r.advanced then r.high else 0) nofun (hopen.symm.trans his) ?_ ?_
      · rw [hadvanced, hhigh]
        rfl
      · simp [external, his]
  | mbc2 r =>
    obtain ⟨hopen, -⟩ := hc
    cases his : r.isOpen with
    | false => exact .closed (hopen.symm.trans his) (by simp [external, his])
    | true => exact .halves rfl (hopen.symm.trans his) rfl (by simp [external, his])
  | mbc3 r =>
    obtain ⟨hopen, -, hselection⟩ := hc
    cases his : r.isOpen with
    | false => exact .closed (hopen.symm.trans his) (by simp [external, his])
    | true =>
      by_cases hlt : r.selection < 4
      · refine .bank r.selection nofun (hopen.symm.trans his) ?_ (by simp [external, his, hlt])
        rw [hselection] at hlt ⊢
        exact if_pos hlt
      · refine .other (hopen.symm.trans his) ?_ (fun n => ?_) ?_
        · rw [hselection] at hlt
          exact if_neg hlt
        · simp only [external, his, hlt, if_true, if_false]
          split <;> nofun
        · simp only [external, his, hlt, if_true, if_false]
          split <;> nofun
  | mbc5 r =>
    obtain ⟨hopen, -, -, hbank⟩ := hc
    cases his : r.isOpen with
    | false => exact .closed (hopen.symm.trans his) (by simp [external, his])
    | true =>
      refine .bank r.ramBank nofun (hopen.symm.trans his) ?_ (by simp [external, his])
      rw [hbank]
      rfl

/-! ## Controllers without a clock -/

theorem writeClock_of_kind {c : Controller} (hkind : c.kind ≠ .mbc3)
    (x : RealTimeClock.Register) (v : UInt8) : c.writeClock x v = c := by
  cases c with
  | mbc3 r => exact absurd rfl hkind
  | _ => rfl

theorem advance_of_kind {c : Controller} (hkind : c.kind ≠ .mbc3) (n : Nat) : c.advance n = c := by
  cases c with
  | mbc3 r => exact absurd rfl hkind
  | _ => rfl

end Controller

namespace Cartridge

variable {c : Cartridge} {h : History} {a : UInt16}

/-- A cell that an address reaches, in a bank that exists. -/
theorem ramIndex_eq_cellIn (c : Cartridge) {k : Controller.Kind} (hk : k ≠ .mbc2) (n : Nat) :
    c.ramIndex n (a.toNat - 0xa000) = History.cellIn k c.ram.size a n := by
  rw [ramIndex, bankCount, Nat.max_comm, History.cellIn, if_neg hk]
  rfl

/-- The window as far as the writes so far tell: it shows the cell at the address, and nothing if
there is none, unless something else is selected. -/
theorem window_of_follows (hc : c.controller.Follows h) (ha : isExternal a = true) :
    match h.cell? c.controller.kind c.ram.size a with
    | some i => c.read a = History.seen c.controller.kind (byteAt c.ram i) ∧
        ∀ v, c.write a v = { c with ram := withByte c.ram i (History.kept c.controller.kind v) }
    | none => (∀ v, (c.write a v).ram = c.ram) ∧
        (h.isOpen c.controller.kind = false ∨ (h.ramBank? c.controller.kind).isSome →
          c.read a = 0xff ∧ ∀ v, c.write a v = c) := by
  simp only [c.read_external ha, c.write_external ha]
  cases hc.shows with
  | closed hopen hshown =>
    rw [History.cell?, if_neg (by simp [hopen]), hshown]
    exact ⟨fun v => rfl, fun _ => ⟨rfl, fun v => rfl⟩⟩
  | other hopen hbank hbanks hhalves =>
    rw [History.cell?, if_pos ⟨ha, hopen⟩, hbank]
    refine ⟨fun v => ?_, fun hselected => by simp [hopen] at hselected⟩
    cases hshown : c.controller.external with
    | bank n => exact absurd hshown (hbanks n)
    | halves => exact absurd hshown hhalves
    | closed | clock => rfl
  | halves hkind hopen hbank hshown =>
    have hcell : History.cellIn .mbc2 c.ram.size a 0 = halfIndex (a.toNat - 0xa000) := by
      rw [History.cellIn, if_pos rfl, Nat.zero_mod, Nat.zero_mul, Nat.zero_add, halfIndex]
    rw [hkind] at hopen hbank ⊢
    rw [History.cell?, if_pos ⟨ha, hopen⟩, hbank, Option.map_some, hcell, hshown]
    by_cases hlt : halfIndex (a.toNat - 0xa000) < c.ram.size
    · rw [Option.filter_some_pos (by simpa using hlt)]
      exact ⟨History.seen_half _, fun v => rfl⟩
    · rw [Option.filter_some_neg (by simpa using hlt)]
      have habsent : (0xf0 : UInt8) ||| 0xff = 0xff := rfl
      simp [byteAt, withByte, hlt, habsent]
  | bank n hkind hopen hbank hshown =>
    rw [History.cell?, if_pos ⟨ha, hopen⟩, hbank, Option.map_some, ← c.ramIndex_eq_cellIn hkind,
      hshown]
    by_cases hlt : c.ramIndex n (a.toNat - 0xa000) < c.ram.size
    · rw [Option.filter_some_pos (by simpa using hlt)]
      simp [History.seen, History.kept, hkind]
    · rw [Option.filter_some_neg (by simpa using hlt)]
      simp [byteAt, withByte, hlt]

/-- A write reaches the cell at its address alone. -/
theorem ram_write (hc : c.controller.Follows h) (a : UInt16) (v : UInt8) :
    (c.write a v).ram =
      match h.cell? c.controller.kind c.ram.size a with
      | some i => withByte c.ram i (History.kept c.controller.kind v)
      | none => c.ram := by
  by_cases ha : isExternal a = true
  · have hwindow := window_of_follows hc ha
    cases hcell : h.cell? c.controller.kind c.ram.size a with
    | some i =>
      rw [hcell] at hwindow
      rw [hwindow.2 v]
    | none =>
      rw [hcell] at hwindow
      exact hwindow.1 v
  · rw [History.cell?, if_neg (fun hopen => ha hopen.1)]
    by_cases hlow : a < 0x8000
    · rw [write, if_pos hlow]
    · rw [write, if_neg hlow, if_neg ha]

/-! ## What is recalled -/

/-- External memory holds what some writes left of its bytes `ram`; others came before them. -/
structure Remembers (k : Controller.Kind) (ram : ByteArray) (earlier h : History) (d : Cartridge) :
    Prop where
  follows : d.controller.Follows (h ++ earlier)
  kind : d.controller.kind = k
  size : d.ram.size = ram.size
  cells : ∀ i < ram.size, byteAt d.ram i =
    ((History.stored? k ram.size earlier i h).map (History.kept k)).getD (byteAt ram i)

section Remembers

variable {k : Controller.Kind} {ram : ByteArray} {earlier : History} {d : Cartridge}

theorem remembers_nil {c : Cartridge} (hc : c.controller.Follows earlier) :
    Remembers c.controller.kind c.ram earlier [] c :=
  ⟨hc, rfl, rfl, fun _ _ => rfl⟩

theorem Remembers.write (hd : Remembers k ram earlier h d) (a : UInt16) (v : UInt8) :
    Remembers k ram earlier ((a, v) :: h) (d.write a v) := by
  obtain ⟨hfollows, rfl, hsize, hcells⟩ := hd
  refine ⟨follows_write hfollows a v, kind_write d a v, (d.size_ram_write a v).trans hsize,
    fun j hj => ?_⟩
  rw [ram_write hfollows a v, hsize, History.stored?]
  cases hcell : (h ++ earlier).cell? d.controller.kind ram.size a with
  | none => exact hcells j hj
  | some i =>
    have hi : i < d.ram.size := hsize ▸ History.cell?_lt hcell
    rw [byteAt_withByte]
    by_cases hij : i = j
    · rw [if_pos ⟨hij, hi⟩, if_pos (congrArg some hij)]
      rfl
    · rw [if_neg (fun hboth => hij hboth.1), if_neg (fun hsame => hij (Option.some.inj hsame))]
      exact hcells j hj

theorem Remembers.pass (hd : Remembers k ram earlier h d) (n : Nat) :
    Remembers k ram earlier h (d.advance n) :=
  ⟨hd.follows.advance n, (d.controller.kind_advance n).trans hd.kind, hd.size, hd.cells⟩

/-- As long as no saved bytes take its place, external memory holds what was written to it. -/
theorem Remembers.performAll (hd : Remembers k ram earlier h d) {as : List Action}
    (has : ∀ x ∈ as, ¬ x.IsLoad) :
    Remembers k ram earlier (Action.history as ++ h) (performAll d as) := by
  refine history_induction (P := fun d h => Remembers k ram earlier h d) ?_ hd
  intro x hx d h hd
  cases x with
  | write a v => exact hd.write a v
  | pass n => exact hd.pass n
  | loadRam saved => exact absurd trivial (has _ hx)

end Remembers

end Cartridge

/-- Reads and writes of a state are those of a memory of cells, after some writes `h` that follow
earlier ones, where it held the bytes `ram` before them. -/
structure History.Recalled {σ : Type} (k : Controller.Kind) (ram : ByteArray) (earlier h : History)
    (s : σ) (read : σ → UInt16 → UInt8) (write : σ → UInt16 → UInt8 → σ) : Prop where
  /-- A cell shows the last byte that was written to it, or the one that it held. -/
  cell : ∀ a i, (h ++ earlier).cell? k ram.size a = some i →
    read s a = seen k ((stored? k ram.size earlier i h).getD (byteAt ram i))
  /-- Without a cell reads are undriven and writes are lost: while the memory is closed, and where a
  bank of it is selected that does not go so far. -/
  undriven : ∀ a, Cartridge.isExternal a = true → (h ++ earlier).cell? k ram.size a = none →
    (h ++ earlier).isOpen k = false ∨ ((h ++ earlier).ramBank? k).isSome = true →
    read s a = 0xff ∧ ∀ v, write s a v = s

namespace Cartridge

variable {c : Cartridge} {a : UInt16}

theorem isExternal_of_cell {h : History} {k : Controller.Kind} {size i : Nat}
    (hcell : h.cell? k size a = some i) : isExternal a = true := by
  by_contra hother
  rw [History.cell?, if_neg (fun hopen => hother hopen.1)] at hcell
  cases hcell

theorem Remembers.recalled {k : Controller.Kind} {ram : ByteArray} {earlier h : History}
    {d : Cartridge} (hd : Remembers k ram earlier h d) :
    History.Recalled k ram earlier h d read Cartridge.write := by
  obtain ⟨hfollows, rfl, hsize, hcells⟩ := hd
  refine ⟨fun a i hcell => ?_, fun a ha hcell => ?_⟩
  · have hwindow := window_of_follows hfollows (isExternal_of_cell hcell)
    rw [hsize, hcell] at hwindow
    rw [hwindow.1, hcells i (History.cell?_lt hcell)]
    cases History.stored? d.controller.kind ram.size earlier i h with
    | none => rfl
    | some v => exact History.seen_kept _ v
  · have hwindow := window_of_follows hfollows ha
    rw [hsize, hcell] at hwindow
    exact hwindow.2

/-! ## Copies -/

/-- Whether an action is a command to the controller. -/
def Action.isCommand : Action → Bool
  | .write a _ => a < 0x8000
  | _ => false

theorem eq_write_of_isCommand {x : Action} (hx : x.isCommand = true) :
    ∃ a v, x = .write a v ∧ a < 0x8000 := by
  cases x with
  | write a v => exact ⟨a, v, rfl, of_decide_eq_true hx⟩
  | pass | loadRam => cases hx

/-- Saved bytes of the right number replace all of external memory. -/
theorem loadRam_of_size {saved : ByteArray} (hsize : saved.size = c.ram.size) :
    c.loadRam saved = { c with ram := saved } := by
  have hall : saved.extract 0 c.ram.size = saved := hsize ▸ ByteArray.extract_zero_size
  simp [loadRam, hsize, hall]

theorem size_ram_performAll (c : Cartridge) (as : List Action) :
    (performAll c as).ram.size = c.ram.size := by
  refine history_induction (P := fun d _ => d.ram.size = c.ram.size) (h := []) ?_ rfl
  rintro x - d _ hd
  cases x with
  | write a v => exact (d.size_ram_write a v).trans hd
  | pass n => exact hd
  | loadRam saved => exact (size_loadRam d saved).trans hd

/-- Commands leave external memory alone. -/
theorem ram_commands (c : Cartridge) {xs : List Action} (hxs : ∀ x ∈ xs, x.isCommand = true) :
    (performAll c xs).ram = c.ram := by
  refine history_induction (P := fun d _ => d.ram = c.ram) (h := []) ?_ rfl
  intro x hx d _ hd
  obtain ⟨a, v, rfl, ha⟩ := eq_write_of_isCommand (hxs x hx)
  rw [perform, write, if_pos ha]
  exact hd

/-- Only a command changes a controller without a clock. -/
theorem controller_perform (hkind : c.controller.kind ≠ .mbc3) {x : Action}
    (hx : x.isCommand = false) : (c.perform x).controller = c.controller := by
  cases x with
  | write a v =>
    rcases c.controller_write (of_decide_eq_false hx) v with hsame | ⟨r, hclock⟩
    · exact hsame
    · rw [perform, hclock]
      exact c.controller.writeClock_of_kind hkind r v
  | pass n => exact c.controller.advance_of_kind hkind n
  | loadRam saved => rfl

/-- So the commands alone lead to the same registers. -/
theorem controller_performAll_commands {d : Cartridge} (hsame : d.controller = c.controller)
    (hkind : c.controller.kind ≠ .mbc3) (as : List Action) :
    (performAll d (as.filter Action.isCommand)).controller = (performAll c as).controller := by
  induction as generalizing c d with
  | nil => exact hsame
  | cons x as ih =>
    cases hx : x.isCommand with
    | true =>
      obtain ⟨a, v, rfl, ha⟩ := eq_write_of_isCommand hx
      rw [List.filter_cons_of_pos hx]
      refine ih (c := c.write a v) (d := d.write a v) ?_ (by rwa [kind_write])
      rw [write, write, if_pos ha, if_pos ha, hsame]
    | false =>
      have hstays := controller_perform hkind hx
      rw [List.filter_cons_of_neg (by simp [hx])]
      exact ih (hsame.trans hstays.symm) (hstays ▸ hkind)

/-- The window shows nothing but external memory and the registers of the controller. -/
theorem read_external_congr {d : Cartridge} (hcontroller : d.controller = c.controller)
    (hram : d.ram = c.ram) (ha : isExternal a = true) : d.read a = c.read a := by
  simp only [d.read_external ha, c.read_external ha, hcontroller, ramIndex, hram]

/-! ## External memory -/

/-- External memory is a memory of cells, for a cartridge alone and for one on a board: whatever was
done to it before, and whatever is written from then on and however much time passes, a cell shows
the last byte that was written to it. A copy of it in another cartridge of the same image reads the
same as soon as the registers are the same, to which the same commands lead if there is no clock. -/
theorem behaves_as_memory {image : ByteArray} {c : Cartridge} (hload : load image = .ok c) :
    (∀ as bs : List Action, (∀ x ∈ bs, ¬ x.IsLoad) →
      History.Recalled c.controller.kind (performAll c as).ram (Action.history as)
        (Action.history bs) (performAll c (as ++ bs)) read write) ∧
    (∀ (model : Model) (journal : Journal) (as bs : List Board.Action), (∀ x ∈ bs, ¬ x.IsLoad) →
      History.Recalled c.controller.kind
        (performAll (Board.powerUp c model journal) as).cartridge.ram (Board.Action.history as)
        (Board.Action.history bs) (performAll (Board.powerUp c model journal) (as ++ bs))
        Board.read Board.write) ∧
    ∀ as : List Action,
      (∀ xs : List Action, (∀ x ∈ xs, x.isCommand = true) →
        (performAll (c.loadRam (performAll c as).ram) xs).controller =
          (performAll c as).controller →
        ∀ a, isExternal a = true →
          (performAll (c.loadRam (performAll c as).ram) xs).read a = (performAll c as).read a) ∧
      (c.controller.kind ≠ .mbc3 →
        (performAll (c.loadRam (performAll c as).ram) (as.filter Action.isCommand)).controller =
          (performAll c as).controller) := by
  obtain ⟨-, -, -, -, -, hcode⟩ := load_eq_ok hload
  have hstart : c.controller.Follows [] := Controller.follows_ofCode hcode
  -- the invariant holds from any moment on
  have hremembers : ∀ as bs : List Action, (∀ x ∈ bs, ¬ x.IsLoad) →
      Remembers c.controller.kind (performAll c as).ram (Action.history as) (Action.history bs)
        (performAll c (as ++ bs)) := by
    intro as bs hbs
    obtain ⟨hfollows, hkind, -⟩ := follows_performAll hstart as
    rw [List.append_nil] at hfollows
    have hrun := (remembers_nil hfollows).performAll hbs
    rwa [List.append_nil, hkind, ← performAll_append] at hrun
  refine ⟨fun as bs hbs => (hremembers as bs hbs).recalled, ?_, fun as => ⟨?_, ?_⟩⟩
  · -- on a board the course is one of a cartridge alone
    intro model journal as bs hbs
    obtain ⟨xs, hfirst, hearlier, -⟩ := (Board.powerUp c model journal).cartridge_performAll as
    obtain ⟨ys, hsecond, hlater, hloads⟩ :=
      (performAll (Board.powerUp c model journal) as).cartridge_performAll bs
    have hcartridge : (performAll (Board.powerUp c model journal) (as ++ bs)).cartridge =
        performAll c (xs ++ ys) := by
      rw [performAll_append, hsecond, hfirst, performAll_append]
      rfl
    obtain ⟨hcell, hundriven⟩ := (hremembers xs ys (hloads hbs)).recalled
    rw [← hearlier, ← hlater, hfirst]
    refine ⟨fun a i hat => ?_, fun a ha hnone hdriven => ⟨?_, fun v => ?_⟩⟩
    · have ha := isExternal_of_cell hat
      rw [Board.read_cartridge _ (.inr ha), hcartridge]
      exact hcell a i hat
    · rw [Board.read_cartridge _ (.inr ha), hcartridge]
      exact (hundriven a ha hnone hdriven).1
    · rw [Board.write_eq_of_cartridge _ (.inr ha), hcartridge,
        (hundriven a ha hnone hdriven).2 v, ← hcartridge]
  · intro xs hxs hcontroller a ha
    have hsize : (performAll c as).ram.size = c.ram.size := size_ram_performAll c as
    refine read_external_congr hcontroller ?_ ha
    rw [ram_commands _ hxs, loadRam_of_size hsize]
  · intro hkind
    exact controller_performAll_commands (controller_loadRam c _) hkind as

/-- A byte is written through bank five and then, while the memory is closed, another one. -/
def aroundBanks : List (UInt16 × UInt8) :=
  [(0x0000, 0x0a), (0x4000, 0x05), (0xa123, 0x5c), (0x0000, 0x00), (0xa123, 0x00), (0x0000, 0x1a),
    (0x4000, 0x01)]

/-- Of four banks number five is number one: through the one a program reads what it wrote through
the other, and not what it wrote while the memory was closed. A copy reads the same. -/
theorem behaves_as_memory_around :
    ∃ c as, load (headerImage 0x1a 0x00 0x03) = .ok c ∧ c.controller.kind = .mbc5 ∧
      as = aroundBanks.map (fun w => .write w.1 w.2) ∧
      (performAll (Board.powerUp c .dmg {})
        ([] ++ aroundBanks.map fun w => .write w.1 w.2)).read 0xa123 = 0x5c ∧
      (performAll (c.loadRam (performAll c as).ram) (as.filter Action.isCommand)).read 0xa123 =
        (performAll c as).read 0xa123 := by
  have hrom : Header.romSize? 0x00 = some (2 * Header.romBankSize) := rfl
  have hram : Header.ramSize? 0x03 = some 0x8000 := rfl
  obtain ⟨c, hload, hkind, hsize⟩ : ∃ c, load (headerImage 0x1a 0x00 0x03) = .ok c ∧
      c.controller.kind = .mbc5 ∧ c.ram.size = 0x8000 :=
    ⟨_, load_headerImage hrom hram rfl, rfl, Array.size_replicate⟩
  obtain ⟨-, hboard, hcopies⟩ := behaves_as_memory hload
  refine ⟨c, _, hload, hkind, rfl, ?_, ?_⟩
  · have hrecalled := hboard .dmg {} [] (aroundBanks.map fun w => .write w.1 w.2)
      (by simp [aroundBanks, Board.Action.IsLoad])
    change History.Recalled c.controller.kind c.ram _ _ _ _ _ at hrecalled
    have hread := hrecalled.cell 0xa123 0x2123
    rw [hkind, hsize] at hread
    have hstored : History.stored? .mbc5 0x8000 [] 0x2123
        (Board.Action.history (aroundBanks.map fun w => .write w.1 w.2)) = some 0x5c := by
      decide +kernel
    exact (hread (by decide +kernel)).trans
      (congrArg (fun v => v.getD (byteAt c.ram 0x2123)) hstored)
  · obtain ⟨hreads, hregisters⟩ := hcopies (aroundBanks.map fun w => .write w.1 w.2)
    exact hreads _ (fun x hx => (List.mem_filter.1 hx).2)
      (hregisters (by rw [hkind]; decide)) 0xa123 (by decide)

end Cartridge

end GameBoy
