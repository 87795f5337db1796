import GameBoy.Proofs.Video.Background
import Mathlib.Data.Finset.Max
import Mathlib.Data.Fintype.Basic

/-!
# What sprites show

Of the forty sprites the first ten that meet a line are shown in it. Where several of them have a
pixel that is not transparent, one wins, and only its priority decides whether the background is
drawn over it, even if another sprite lies under it. Places on the screen are whole numbers here,
since a sprite may begin above the screen or left of it.

* `mem_take_iff`, `findSome?_eq_of_first`: the beginning of a list in order, and a search in it.
* `Video.Chosen`: the sprites of a line; `Video.spriteColor?`: their pixels.
* `Video.rank`: how urgent a sprite is; `Video.lineSprites_eq`: a line shows its sprites by rank.
* `Video.Winner`: the sprite that wins a column; `Video.Hides`: the background is drawn over it.
* `Video.sprites_shown`: what a column shows.
-/

namespace GameBoy

/-! ## Lists in order -/

/-- In a list in order, the first `k` elements are those that fewer than `k` elements precede. -/
theorem mem_take_iff {n : Nat} {l : List (Fin n)} (hl : l.Pairwise (· < ·)) (i : Fin n) (k : Nat) :
    i ∈ l.take k ↔ i ∈ l ∧ (l.filter (· < i)).length < k := by
  induction l generalizing k with
  | nil => simp
  | cons a l ih =>
    obtain ⟨hfirst, hl⟩ := List.pairwise_cons.1 hl
    cases k with
    | zero => simp
    | succ k =>
      rw [List.take_succ_cons, List.mem_cons, List.mem_cons, ih hl]
      by_cases hi : i = a
      · subst hi
        have hnone : l.filter (· < i) = [] :=
          List.filter_eq_nil_iff.2 fun b hb => by simpa using (hfirst b hb).le
        simp [hnone]
      · have hcount : i ∈ l → ((a :: l).filter (· < i)).length = (l.filter (· < i)).length + 1 :=
          fun hmem => by simp [hfirst i hmem]
        constructor
        · rintro (h | ⟨hmem, hlt⟩)
          · exact absurd h hi
          · exact ⟨.inr hmem, by rw [hcount hmem]; omega⟩
        · rintro ⟨h | hmem, hlt⟩
          · exact absurd h hi
          · rw [hcount hmem] at hlt
            exact .inr ⟨hmem, by omega⟩

/-- A search in a list in order ends where something is found, if nothing is found at the other
elements that do not come later. -/
theorem findSome?_eq_of_first {α β : Type} {r : α → α → Prop} {f : α → Option β} {l : List α}
    {a : α} {b : β} (hl : l.Pairwise r) (ha : a ∈ l) (hfound : f a = some b)
    (hfirst : ∀ c ∈ l, r c a → c = a ∨ f c = none) : l.findSome? f = some b := by
  induction l with
  | nil => exact absurd ha List.not_mem_nil
  | cons c l ih =>
    obtain ⟨hc, hl⟩ := List.pairwise_cons.1 hl
    rw [List.findSome?_cons]
    by_cases heq : c = a
    · rw [heq, hfound]
    · have hmem := (List.mem_cons.1 ha).resolve_left (Ne.symm heq)
      rw [(hfirst c List.mem_cons_self (hc a hmem)).resolve_left heq]
      exact ih hl hmem fun d hd => hfirst d (List.mem_cons_of_mem c hd)

/-! ## Rows and bytes of sprites -/

theorem SpriteRow.color_eq (r : SpriteRow) {x : Nat} {column : Fin 8} (h : r.x + column = x + 8) :
    r.color x = pixelColor r.low r.high (flipped r.attributes.flipX column) := by
  have hcovers : r.x ≤ x + 8 ∧ x < r.x := by omega
  have hcolumn : (⟨x + 8 - r.x, by omega⟩ : Fin 8) = column :=
    Fin.ext (Nat.sub_eq_of_eq_add' h.symm)
  rw [SpriteRow.color, dif_pos hcovers, hcolumn]

/-- The four bytes of a sprite. -/
inductive SpritePart
  /-- Sixteen more than its first line. -/
  | y
  /-- Eight more than its first column. -/
  | x
  /-- The number of its tile. -/
  | tile
  /-- How it is drawn. -/
  | attributes

/-- Where the byte lies among the four. -/
def SpritePart.offset : SpritePart → Nat
  | .y => 0
  | .x => 1
  | .tile => 2
  | .attributes => 3

namespace Video

variable {v : Video}

/-! ## The sprites of a line -/

theorem four_mul_add_offset_lt (i : Fin 40) (part : SpritePart) :
    4 * i.val + part.offset < 0xa0 := by
  have hoffset : part.offset < 4 := by cases part <;> decide
  omega

/-- A byte of a sprite. -/
def spriteByte (v : Video) (i : Fin 40) (part : SpritePart) : UInt8 :=
  v.oam.get (4 * i.val + part.offset) (four_mul_add_offset_lt i part)

/-- A bit of the byte that tells how a sprite is drawn. -/
def spriteFlag (v : Video) (i : Fin 40) (bit : Nat) : Bool :=
  (v.spriteByte i .attributes).toNat.testBit bit

/-- The line in which a sprite begins. -/
def spriteTop (v : Video) (i : Fin 40) : Int := (v.spriteByte i .y).toNat - 16

/-- The column in which a sprite begins. -/
def spriteLeft (v : Video) (i : Fin 40) : Int := (v.spriteByte i .x).toNat - 8

/-- How many lines a sprite has. -/
def spriteLines (v : Video) : Nat := if v.control.bits.toNat.testBit 2 then 16 else 8

/-- The sprite has a row in the current line. -/
def MeetsLine (v : Video) (i : Fin 40) : Prop :=
  v.spriteTop i ≤ v.line ∧ v.line < v.spriteTop i + v.spriteLines

instance (v : Video) (i : Fin 40) : Decidable (v.MeetsLine i) := inferInstanceAs (Decidable (_ ∧ _))

/-- The sprite is one of the first ten in memory that meet the current line. -/
def Chosen (v : Video) (i : Fin 40) : Prop :=
  v.MeetsLine i ∧ (Finset.univ.filter fun j => j < i ∧ v.MeetsLine j).card < 10

instance (v : Video) (i : Fin 40) : Decidable (v.Chosen i) := inferInstanceAs (Decidable (_ ∧ _))

/-- The numbers of the chosen sprites, in the order of memory. -/
def chosenNumbers (v : Video) : List (Fin 40) :=
  ((List.finRange 40).filter fun i => v.MeetsLine i).take spritesPerLine

theorem mod_eight_lt (n : Nat) : n % 8 < 8 := Nat.mod_lt n (by decide)

theorem y_sprite (v : Video) (i : Fin 40) : (v.sprite i).y = (v.spriteByte i .y).toNat := rfl

theorem x_sprite (v : Video) (i : Fin 40) : (v.sprite i).x = (v.spriteByte i .x).toNat := rfl

theorem tile_sprite (v : Video) (i : Fin 40) : (v.sprite i).tile = v.spriteByte i .tile := rfl

theorem attributes_sprite (v : Video) (i : Fin 40) :
    (v.sprite i).attributes =
      { palette := ⟨(v.spriteByte i .attributes).toNat % 8, mod_eight_lt _⟩
        bank := v.spriteFlag i 3
        second := v.spriteFlag i 4
        flipX := v.spriteFlag i 5
        flipY := v.spriteFlag i 6
        priority := v.spriteFlag i 7 } :=
  Attributes.ofByte_eq _

theorem spriteHeight_eq (v : Video) : v.control.spriteHeight = v.spriteLines := by
  have hbit : (v.control.bits &&& 0x04 != 0) = v.control.bits.toNat.testBit 2 :=
    and_shiftLeft_ne_zero v.control.bits 2
  rw [Control.spriteHeight, hbit, spriteLines]

theorem meets_sprite_iff (v : Video) (i : Fin 40) :
    v.meets (v.sprite i) = true ↔ v.MeetsLine i := by
  simp only [meets, Bool.and_eq_true, decide_eq_true_eq]
  rw [y_sprite, spriteHeight_eq]
  unfold MeetsLine spriteTop
  omega

theorem chosenSprites_eq (v : Video) : v.chosenSprites = v.chosenNumbers.map v.sprite := by
  have hmeets : (v.meets ∘ v.sprite) = fun i => decide (v.MeetsLine i) := by
    funext i
    exact Bool.eq_iff_iff.2 ((v.meets_sprite_iff i).trans decide_eq_true_iff.symm)
  rw [chosenSprites, List.ofFn_eq_map, List.filter_map, hmeets, ← List.map_take]
  rfl

theorem pairwise_chosenNumbers (v : Video) : v.chosenNumbers.Pairwise (· < ·) :=
  ((List.pairwise_lt_finRange 40).filter _).sublist (List.take_sublist _ _)

theorem mem_chosenNumbers {i : Fin 40} : i ∈ v.chosenNumbers ↔ v.Chosen i := by
  have hcount : (((List.finRange 40).filter fun j => v.MeetsLine j).filter (· < i)).length =
      (Finset.univ.filter fun j => j < i ∧ v.MeetsLine j).card := by
    rw [List.filter_filter]
    simp only [← Bool.decide_and]
    rfl
  rw [chosenNumbers, mem_take_iff ((List.pairwise_lt_finRange 40).filter _), hcount]
  simp [Chosen]

/-! ## The pixels of a sprite -/

/-- The bank that holds the tiles of a sprite. -/
def spriteBank (v : Video) (i : Fin 40) : VideoBank :=
  match v.model with
  | .dmg => .first
  | .cgb => if v.spriteFlag i 3 then .second else .first

/-- The row of a sprite that the current line shows, counted from the top of the picture. -/
def shownRow (v : Video) (i : Fin 40) : Int :=
  if v.spriteFlag i 6 then v.spriteLines - 1 - (v.line - v.spriteTop i)
  else v.line - v.spriteTop i

/-- The column of a sprite that column `x` of the screen shows, counted from the left of the
picture. -/
def shownColumn (v : Video) (i : Fin 40) (x : Nat) : Int :=
  if v.spriteFlag i 5 then 7 - (x - v.spriteLeft i) else x - v.spriteLeft i

/-- The colour number of a sprite in column `x` of the current line. The two tiles of a tall sprite
follow each other, and the first one has an even number. -/
def spriteColor? (v : Video) (i : Fin 40) (x : Nat) : Option Nat :=
  let tile := if v.spriteLines = 16 then v.spriteByte i .tile &&& 0xfe else v.spriteByte i .tile
  v.tileColor? (v.spriteBank i) (0x8000 + 16 * (tile.toNat : Int) + 2 * v.shownRow i)
    (v.shownColumn i x).toNat

/-- The sprite has a pixel in column `x` of the current line, and the pixel is not transparent. -/
def Candidate (v : Video) (x : Nat) (i : Fin 40) : Prop :=
  v.Chosen i ∧ v.spriteLeft i ≤ x ∧ x < v.spriteLeft i + 8 ∧ ∃ c ∈ v.spriteColor? i x, c ≠ 0

instance (v : Video) (x : Nat) (i : Fin 40) : Decidable (v.Candidate x i) :=
  inferInstanceAs (Decidable (_ ∧ _ ∧ _ ∧ _))

theorem shownRow_eq {i : Fin 40} (hmeets : v.MeetsLine i) :
    v.shownRow i = (if v.spriteFlag i 6 then
      v.spriteLines - 1 - (v.line + 16 - (v.spriteByte i .y).toNat)
    else v.line + 16 - (v.spriteByte i .y).toNat : Nat) := by
  obtain ⟨hstarts, hends⟩ := hmeets
  unfold shownRow
  unfold spriteTop at *
  split <;> omega

theorem shownRow_lt {i : Fin 40} (hmeets : v.MeetsLine i) : v.shownRow i < 16 := by
  have hlines : v.spriteLines ≤ 16 := v.spriteHeight_eq ▸ spriteHeight_le v.control
  obtain ⟨hstarts, hends⟩ := hmeets
  unfold shownRow
  split <;> omega

/-- A sprite that meets the line has its pixels in the row that is drawn. -/
theorem spriteColor?_eq {i : Fin 40} {x : Nat} (hmeets : v.MeetsLine i)
    (hleft : v.spriteLeft i ≤ x) (hright : x < v.spriteLeft i + 8) :
    v.spriteColor? i x = some ((v.spriteRow (v.sprite i)).color x).val := by
  have hx : (v.spriteRow (v.sprite i)).x = (v.spriteByte i .x).toNat := rfl
  obtain ⟨column, hcolumn⟩ : ∃ column : Fin 8, x - v.spriteLeft i = column.val :=
    ⟨⟨(x - v.spriteLeft i).toNat, by omega⟩, (Int.toNat_of_nonneg (by omega)).symm⟩
  have hplace : (v.spriteRow (v.sprite i)).x + column = x + 8 := by
    unfold spriteLeft at hcolumn
    omega
  have hshown : (v.shownColumn i x).toNat =
      (flipped (v.spriteFlag i 5) column).val := by
    rw [val_flipped, shownColumn, hcolumn]
    split <;> omega
  have hrow := shownRow_eq hmeets
  have hlt := shownRow_lt hmeets
  rw [SpriteRow.color_eq _ hplace, spriteColor?, hshown]
  simp only [spriteRow, y_sprite, tile_sprite, attributes_sprite, spriteHeight_eq]
  generalize (if v.spriteFlag i 6 = true then
    v.spriteLines - 1 - (v.line + 16 - (v.spriteByte i .y).toNat)
    else v.line + 16 - (v.spriteByte i .y).toNat) = row at hrow ⊢
  generalize
    (if v.spriteLines = 16 then v.spriteByte i .tile &&& 0xfe else v.spriteByte i .tile) = tile
  have hstart := toNat_tileAddress_true tile
  have hid := tile.toNat_lt
  have haddress : (0x8000 + 16 * (tile.toNat : Int)) = (tileAddress true tile).toNat := by omega
  rw [haddress, hrow]
  exact v.tileColor?_row (v.spriteBank i) (by omega) (by omega) _

theorem candidate_iff {x : Nat} {i : Fin 40} :
    v.Candidate x i ↔ v.Chosen i ∧ (v.spriteRow (v.sprite i)).color x ≠ .backdrop := by
  by_cases hcovers : v.spriteLeft i ≤ x ∧ x < v.spriteLeft i + 8
  · obtain ⟨hleft, hright⟩ := hcovers
    refine and_congr_right fun hchosen => ?_
    rw [spriteColor?_eq hchosen.1 hleft hright]
    constructor
    · rintro ⟨-, -, c, hc, hne⟩ hcolor
      exact hne ((Option.some.inj hc).symm.trans (congrArg Fin.val hcolor))
    · exact fun hcolor => ⟨hleft, hright, _, rfl, fun h => hcolor (Fin.ext h)⟩
  · have hout : (v.spriteRow (v.sprite i)).color x = .backdrop := by
      refine dif_neg fun h => hcovers ?_
      have hx : (v.spriteRow (v.sprite i)).x = (v.spriteByte i .x).toNat := rfl
      unfold spriteLeft
      omega
    constructor
    · rintro ⟨-, hleft, hright, -⟩
      exact absurd ⟨hleft, hright⟩ hcovers
    · rintro ⟨-, hcolor⟩
      exact absurd hout hcolor

theorem color_of_not_candidate {x : Nat} {i : Fin 40} (hchosen : v.Chosen i)
    (h : ¬ v.Candidate x i) : (v.spriteRow (v.sprite i)).color x = .backdrop :=
  Classical.not_not.1 fun hne => h (candidate_iff.2 ⟨hchosen, hne⟩)

/-! ## Urgency -/

/-- The sprite is more urgent than another one: in the monochrome console if it lies further left,
and among sprites at one place or in the colour console if it comes earlier in memory. -/
def Precedes (v : Video) (i j : Fin 40) : Prop :=
  match v.model with
  | .dmg => v.spriteByte i .x < v.spriteByte j .x ∨ v.spriteByte i .x = v.spriteByte j .x ∧ i < j
  | .cgb => i < j

/-- How far a sprite is from being the most urgent one. -/
def rank (v : Video) (i : Fin 40) : Nat :=
  match v.model with
  | .dmg => 40 * (v.spriteByte i .x).toNat + i
  | .cgb => i

/-- The sprite is a candidate, and more urgent than all others. -/
def Winner (v : Video) (x : Nat) (i : Fin 40) : Prop :=
  v.Candidate x i ∧ ∀ j, v.Candidate x j → j = i ∨ v.Precedes i j

theorem precedes_iff {i j : Fin 40} : v.Precedes i j ↔ v.rank i < v.rank j := by
  unfold Precedes rank
  cases v.model with
  | dmg =>
    simp only [UInt8.lt_iff_toNat_lt, ← UInt8.toNat_inj, Fin.lt_def]
    omega
  | cgb => exact Fin.lt_def

instance (v : Video) (i j : Fin 40) : Decidable (v.Precedes i j) :=
  decidable_of_iff _ precedes_iff.symm

instance (v : Video) (x : Nat) (i : Fin 40) : Decidable (v.Winner x i) :=
  inferInstanceAs (Decidable (_ ∧ _))

theorem rank_injective (v : Video) : Function.Injective v.rank := by
  intro i j h
  unfold rank at h
  apply Fin.ext
  cases hmodel : v.model with
  | dmg =>
    simp only [hmodel] at h
    omega
  | cgb =>
    simp only [hmodel] at h
    exact h

theorem atLeastAsUrgent_sprite (hmodel : v.model = .dmg) (i j : Fin 40) :
    atLeastAsUrgent (v.sprite i) (v.sprite j) = decide (v.rank i ≤ v.rank j) := by
  have hindex (i : Fin 40) : (v.sprite i).index = i := rfl
  rw [Bool.eq_iff_iff]
  simp only [atLeastAsUrgent, rank, hmodel, Bool.or_eq_true, Bool.and_eq_true, decide_eq_true_eq,
    beq_iff_eq]
  rw [x_sprite, x_sprite, hindex, hindex]
  omega

/-- The numbers of the chosen sprites, the most urgent first. -/
def lineNumbers (v : Video) : List (Fin 40) :=
  v.chosenNumbers.mergeSort fun i j => v.rank i ≤ v.rank j

theorem mem_lineNumbers {i : Fin 40} : i ∈ v.lineNumbers ↔ v.Chosen i :=
  List.mem_mergeSort.trans mem_chosenNumbers

theorem pairwise_lineNumbers (v : Video) :
    v.lineNumbers.Pairwise fun i j => v.rank i ≤ v.rank j := by
  have hsorted : v.lineNumbers.Pairwise fun i j => decide (v.rank i ≤ v.rank j) = true :=
    List.pairwise_mergeSort (by simp; omega) (by simp; omega) v.chosenNumbers
  exact hsorted.imp of_decide_eq_true

/-- In either console a line shows its sprites by rank. -/
theorem lineSprites_eq (v : Video) : v.lineSprites = v.lineNumbers.map v.sprite := by
  unfold lineSprites lineNumbers
  rw [chosenSprites_eq]
  cases hmodel : v.model with
  | dmg => exact (List.map_mergeSort fun i _ j _ => (atLeastAsUrgent_sprite hmodel i j).symm).symm
  | cgb =>
    have hsorted : v.chosenNumbers.Pairwise fun i j => decide (v.rank i ≤ v.rank j) = true :=
      v.pairwise_chosenNumbers.imp fun {i j} hlt => by
        simp only [rank, hmodel, decide_eq_true_eq]
        exact Fin.le_def.1 hlt.le
    rw [List.mergeSort_of_pairwise hsorted]

/-- If a column has a candidate, one sprite wins it. -/
theorem exists_unique_winner {x : Nat} (h : ∃ i, v.Candidate x i) : ∃! w, v.Winner x w := by
  obtain ⟨i, hi⟩ := h
  obtain ⟨w, hw, hleast⟩ := (Finset.univ.filter (v.Candidate x)).exists_min_image v.rank
    ⟨i, Finset.mem_filter.2 ⟨Finset.mem_univ i, hi⟩⟩
  have hcandidate := (Finset.mem_filter.1 hw).2
  refine ⟨w, ⟨hcandidate, fun j hj => ?_⟩, fun u hu => ?_⟩
  · have hle := hleast j (Finset.mem_filter.2 ⟨Finset.mem_univ j, hj⟩)
    by_cases heq : v.rank w = v.rank j
    · exact .inl (v.rank_injective heq.symm)
    · exact .inr (precedes_iff.2 (by omega))
  · have hle := hleast u (Finset.mem_filter.2 ⟨Finset.mem_univ u, hu.1⟩)
    rcases hu.2 w hcandidate with heq | hprecedes
    · exact heq.symm
    · have hlt := precedes_iff.1 hprecedes
      omega

/-- The search among the rows of the line finds the winner's pixel. -/
theorem spritePixel?_eq {x : Nat} {w : Fin 40} (h : v.Winner x w) :
    spritePixel? (v.lineSprites.map v.spriteRow) x = some
      { color := (v.spriteRow (v.sprite w)).color x, attributes := (v.sprite w).attributes } := by
  obtain ⟨hchosen, hcolor⟩ := candidate_iff.1 h.1
  rw [spritePixel?, lineSprites_eq, List.map_map, List.findSome?_map]
  refine findSome?_eq_of_first v.pairwise_lineNumbers (mem_lineNumbers.2 hchosen) (if_neg hcolor)
    fun j hj hle => ?_
  by_cases hcandidate : v.Candidate x j
  · refine .inl ((h.2 j hcandidate).resolve_right fun hprecedes => ?_)
    have hlt := precedes_iff.1 hprecedes
    omega
  · exact .inr (if_pos (color_of_not_candidate (mem_lineNumbers.1 hj) hcandidate))

theorem spritePixel?_eq_none {x : Nat} (h : ∀ i, ¬ v.Candidate x i) :
    spritePixel? (v.lineSprites.map v.spriteRow) x = none := by
  rw [spritePixel?, lineSprites_eq, List.map_map, List.findSome?_map, List.findSome?_eq_none_iff]
  intro i hi
  exact if_pos (color_of_not_candidate (mem_lineNumbers.1 hi) (h i))

/-! ## The line -/

/-- Background or window is drawn over the sprite in column `x` of the current line. -/
def Hides (v : Video) (x : Nat) (i : Fin 40) : Prop :=
  (v.behind x).color.val ≠ 0 ∧
    match v.model with
    | .dmg => v.spriteFlag i 7 = true
    | .cgb => v.control.bits.toNat.testBit 0 = true ∧
        (v.spriteFlag i 7 = true ∨
          ∃ attributes, v.ShowsTile x attributes (v.behind x).color ∧
            attributes.toNat.testBit 7 = true)

/-- The palette of a sprite. -/
def objectPalette (v : Video) (i : Fin 40) : Palette :=
  match v.model with
  | .dmg => if v.spriteFlag i 4 then .object1 else .object0
  | .cgb => .colorObject ⟨(v.spriteByte i .attributes).toNat % 8, mod_eight_lt _⟩

theorem covers_iff {x : Fin screenWidth} {i : Fin 40} {p : TilePixel}
    (h : p.attributes = (v.sprite i).attributes) :
    v.covers (v.backgroundPixel x) p = true ↔ v.Hides x i := by
  unfold covers Hides
  rw [h, attributes_sprite, Control.hasBackground_eq, Bool.and_eq_true, bne_iff_ne]
  refine and_congr (not_congr Fin.ext_iff) ?_
  cases hmodel : v.model with
  | dmg => exact Iff.rfl
  | cgb =>
    obtain ⟨-, attributes, -, hshows, htold, -⟩ := v.showsTile_behind x fun hblank => by
      simp [hblank.1] at hmodel
    have htile : (v.backgroundPixel x).attributes.priority = attributes.toNat.testBit 7 := by
      rw [htold, Attributes.ofByte_eq]
    have honly : (∃ a, v.ShowsTile x a (v.behind x).color ∧ a.toNat.testBit 7 = true) ↔
        attributes.toNat.testBit 7 = true :=
      ⟨fun ⟨a, ha, hbit⟩ => ha.attributes_unique hshows ▸ hbit, fun hbit => ⟨_, hshows, hbit⟩⟩
    rw [honly, htile, Bool.and_eq_true, Bool.or_eq_true, or_comm]

theorem spritePalette_eq {i : Fin 40} {p : TilePixel}
    (h : p.attributes = (v.sprite i).attributes) : v.spritePalette p = v.objectPalette i := by
  have hsecond : p.attributes.second = v.spriteFlag i 4 := by
    rw [h, attributes_sprite]
  have hpalette : p.attributes.palette = ⟨_, mod_eight_lt (v.spriteByte i .attributes).toNat⟩ := by
    rw [h, attributes_sprite]
  unfold spritePalette objectPalette
  cases v.model with
  | dmg => simp only [hsecond]
  | cgb => exact congrArg Palette.colorObject hpalette

theorem pixel_of_winner {x : Fin screenWidth} {w : Fin 40} (h : v.Winner x w) :
    (v.Hides x w → v.pixel (v.lineSprites.map v.spriteRow) x = v.behind x) ∧
    (¬ v.Hides x w → v.pixel (v.lineSprites.map v.spriteRow) x =
      { color := (v.spriteRow (v.sprite w)).color x, palette := v.objectPalette w }) := by
  let p : TilePixel :=
    { color := (v.spriteRow (v.sprite w)).color x, attributes := (v.sprite w).attributes }
  have hcovers : v.covers (v.backgroundPixel x) p = true ↔ v.Hides x w := covers_iff rfl
  have hpalette : v.spritePalette p = v.objectPalette w := spritePalette_eq rfl
  rw [pixel, spritePixel?_eq h, ← hpalette]
  exact ⟨fun hhides => if_pos (hcovers.2 hhides), fun hshows => if_neg (mt hcovers.1 hshows)⟩

/-- When a line is drawn, a column of it shows the background where sprites are switched off or all
of them are transparent. Elsewhere the sprite that wins the column is shown, in its colour and its
palette, unless the background is drawn over it; no other sprite then takes its place. -/
theorem sprites_shown (hphase : v.phase = .transfer) (hline : v.line < screenHeight)
    (x : Fin screenWidth) :
    (v.control.bits.toNat.testBit 1 = false ∨ (∀ i, ¬ v.Candidate x i) →
      v.drawn hline x = v.behind x) ∧
    ((∃ i, v.Candidate x i) → ∃! w, v.Winner x w) ∧
    (v.control.bits.toNat.testBit 1 = true → ∀ w, v.Winner x w →
      (v.Hides x w → v.drawn hline x = v.behind x) ∧
      (¬ v.Hides x w →
        v.spriteColor? w x = some (v.drawn hline x).color.val ∧
          (v.drawn hline x).palette = v.objectPalette w)) := by
  rw [drawn_eq_pixel hphase hline, spriteRows, Control.hasSprites_eq]
  refine ⟨?_, exists_unique_winner, fun hsprites w hw => ?_⟩
  · rintro (hoff | hnone)
    · rw [hoff]
      rfl
    · split
      · rw [pixel, spritePixel?_eq_none hnone]
        rfl
      · rfl
  · obtain ⟨hhidden, hseen⟩ := pixel_of_winner hw
    rw [if_pos hsprites]
    refine ⟨hhidden, fun hshows => ?_⟩
    obtain ⟨hchosen, hleft, hright, -⟩ := hw.1
    rw [hseen hshows]
    exact ⟨spriteColor?_eq hchosen.1 hleft hright, rfl⟩

/-- Two sprites that overlap: the second one in memory lies further left, and wins the column that
both of them fill. -/
theorem sprites_shown_overlapping :
    let v : Video := { powerUp .dmg with
      phase := .transfer, line := 4, control := ⟨0x92⟩, vram := .fill _ 0xff
      oam := .ofFn _ fun i => [16, 20, 0, 0, 16, 16, 0, 0x10].getD i 0 }
    v.phase = .transfer ∧ ∃ hline : v.line < screenHeight,
      v.Candidate 12 ⟨0, by decide⟩ ∧ v.Winner 12 ⟨1, by decide⟩ ∧ ¬ v.Hides 12 ⟨1, by decide⟩ ∧
      (v.drawn hline ⟨12, by decide⟩).color.val = 3 ∧
      (v.drawn hline ⟨12, by decide⟩).palette = .object1 := by
  intro v
  have hline : v.line < screenHeight := by decide
  obtain ⟨-, -, hshown⟩ := sprites_shown (v := v) rfl hline ⟨12, by decide⟩
  have hcandidate : v.Candidate 12 ⟨0, by decide⟩ := by decide +kernel
  have hwinner : v.Winner 12 ⟨1, by decide⟩ := by decide +kernel
  have hhides : ¬ v.Hides 12 ⟨1, by decide⟩ := fun h => h.1 (by decide +kernel)
  obtain ⟨hcolor, hpalette⟩ := (hshown (by decide) ⟨1, by decide⟩ hwinner).2 hhides
  have hthree : v.spriteColor? ⟨1, by decide⟩ 12 = some 3 := by decide +kernel
  have hobject : v.objectPalette ⟨1, by decide⟩ = .object1 := by decide +kernel
  exact ⟨rfl, hline, hcandidate, hwinner, hhides, Option.some.inj (hcolor.symm.trans hthree),
    hpalette.trans hobject⟩

end Video

end GameBoy
