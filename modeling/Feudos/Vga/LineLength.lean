import Feudos.Vga.Bounds
import Feudos.Vga.Newline

/-!
# Line lengths

`line_len` has eight bits for each row, and a cursor column has sixteen.

- `Bookkept`                  : a row is no longer than the cursor's column, and empty below it;
- `history_bookkept`          : so it is in every history, even where a length was truncated;
- `line_length_exact_iff`     : no length is truncated exactly when nothing is printed beyond
  column 254;
- `line_length_always_exact_iff` : on which screens no history truncates one.

A column beyond the grid counts as well.  Backspace loads it from `line_len`, and a character
printed there makes the row one longer, so that columns can grow up to 255 on any screen of two
rows.
-/

namespace Feudos
namespace Vga

open GuardedRun

variable {t : Terminal}

/-! ## The bookkeeping invariant -/

/-- What every backspace relies on: the row of the cursor is no longer than its column, and the
rows below are empty.  The column is in the grid, or an 8-bit length. -/
structure Bookkept (t : Terminal) : Prop extends EmptyBelow t where
  length_le : (t.lineLen.len t.cursorRow).toNat ≤ t.cursorColumn
  column : (t.cursorColumn : Int) < t.geom.vgaWidth ∨ t.cursorColumn ≤ 255

theorem Recorded.bookkept (h : Recorded t) : Bookkept t := by
  have hlt := (t.lineLen.len t.cursorRow).toNat_lt
  have hcolumn := h.column
  exact ⟨h.toEmptyBelow, Nat.le_of_eq hcolumn, Or.inr (by omega)⟩

/-- Columns are far from the limit of 16 bits. -/
theorem Bookkept.u16_column (h : Bookkept t) (hcols : t.geom.vgaWidth ≤ 8191) {d : Nat}
    (hd : d ≤ 2) : u16 (t.cursorColumn + d) = t.cursorColumn + d := by
  have hcolumn := h.column
  exact u16_of_lt (by omega)

theorem openRow_bookkept (h : EmptyBelow t) (hrows : t.geom.vgaHeight ≤ 256) :
    Bookkept (openRow t) :=
  (openRow_recorded h hrows).bookkept

theorem putTab_bookkept (h : Bookkept t) (hrows : t.geom.vgaHeight ≤ 256)
    (hcols : t.geom.vgaWidth ≤ 8191) : Bookkept (putTab t) := by
  have hlength := h.length_le
  have hu := h.u16_column hcols (d := 2 - t.cursorColumn % 2) (Nat.sub_le 2 _)
  refine putTab_cases t (fun _ => openRow_bookkept h.toEmptyBelow hrows) (fun hmove => ?_)
  rw [hu] at hmove ⊢
  refine ⟨⟨h.row, h.empty⟩, ?_, Or.inl hmove⟩
  exact Nat.le_trans hlength (Nat.le_add_right _ _)

theorem putBackspace_bookkept (h : Bookkept t) : Bookkept (putBackspace t) := by
  have hcolumn := h.column
  refine ⟨putBackspace_emptyBelow h.toEmptyBelow h.length_le, ?length, ?column⟩
  case length =>
    refine putBackspace_cases
      (motive := fun t' => (t'.lineLen.len t'.cursorRow).toNat ≤ t'.cursorColumn) t
      (fun _ _ => h.length_le) (fun _ _ => ?_) (fun _ => ?_)
    · -- The column is the length just read, so nothing is stored.
      show ((eraseCell _ _ _).lineLen.len (t.cursorRow - 1)).toNat ≤
        (t.lineLen.len (t.cursorRow - 1)).toNat
      rw [eraseCell_len, if_neg (fun hEq => Nat.lt_irrefl _ hEq.2)]
      exact Nat.le_refl _
    · show ((eraseCell _ _ _).lineLen.len t.cursorRow).toNat ≤ t.cursorColumn - 1
      rw [eraseCell_len]
      split
      · exact Nat.mod_le _ _
      · next hnot =>
          exact Nat.not_lt.1 (fun hlt => hnot ⟨rfl, hlt⟩)
  case column =>
    refine putBackspace_cases
      (motive := fun t' => (t'.cursorColumn : Int) < t'.geom.vgaWidth ∨ t'.cursorColumn ≤ 255) t
      (fun _ _ => hcolumn) (fun _ _ => ?_) (fun _ => ?_)
    · have hlt := (t.lineLen.len (t.cursorRow - 1)).toNat_lt
      exact Or.inr (Nat.lt_succ_iff.1 hlt)
    · show ((t.cursorColumn - 1 : Nat) : Int) < t.geom.vgaWidth ∨ t.cursorColumn - 1 ≤ 255
      omega

/-- A store cut to eight bits only makes the length smaller. -/
theorem printed_length_le (h : Bookkept t) (c color : UInt8) :
    ((printed t c color).lineLen.len t.cursorRow).toNat ≤ t.cursorColumn + 1 := by
  have hlength := h.length_le
  rw [printed_len]
  split
  · exact Nat.mod_le _ _
  · exact Nat.le_succ_of_le hlength

theorem putGlyph_bookkept (h : Bookkept t) (hrows : t.geom.vgaHeight ≤ 256)
    (hcols : t.geom.vgaWidth ≤ 8191) (c color : UInt8) : Bookkept (putGlyph t c color) := by
  have hu := h.u16_column hcols (d := 1) (by decide)
  have hbelow := printed_emptyBelow h.toEmptyBelow c color
  refine putGlyph_cases t c color (fun _ => openRow_bookkept hbelow hrows) (fun hmove => ?_)
  rw [hu] at hmove ⊢
  exact ⟨⟨hbelow.row, hbelow.empty⟩, printed_length_le h c color, Or.inl hmove⟩

/-- Every call keeps the bookkeeping. -/
theorem apply_bookkept {op : Op} (h : Bookkept t) (hrows : t.geom.vgaHeight ≤ 256)
    (hcols : t.geom.vgaWidth ≤ 8191) : Bookkept (op.apply t) := by
  cases op with
  | clearScreen color =>
      have hrow := h.row
      exact (vgaClearScreen_recorded (by omega) color).bookkept
  | putc c color =>
      exact vgaPutc_cases t c color (fun _ => openRow_bookkept h.toEmptyBelow hrows)
        (fun _ => putTab_bookkept h hrows hcols) (fun _ => putBackspace_bookkept h) h
        (fun _ => putGlyph_bookkept h hrows hcols c color)

/-! ## Histories -/

theorem vgaInit_vgaWidth_le {f : Framebuffer} (hw : f.width < 65536) :
    (vgaInit f).vgaWidth ≤ 8191 := by
  rw [vgaInit_vgaWidth hw]
  omega

/-- The invariant of the runs below. -/
def BookkeptOn (f : Framebuffer) (t : Terminal) : Prop :=
  t.geom = vgaInit f ∧ Bookkept t

theorem started_bookkeptOn {f : Framebuffer} (hH : 1 ≤ (vgaInit f).vgaHeight)
    (fb : Nat → UInt32) (color : UInt8) : BookkeptOn f (started f fb color) :=
  ⟨rfl, (vgaClearScreen_recorded (t := Terminal.init f fb) hH color).bookkept⟩

theorem apply_bookkeptOn {f : Framebuffer} (hw : f.width < 65536) (t : Terminal) (op : Op)
    (h : BookkeptOn f t) : BookkeptOn f (op.apply t) := by
  rcases h with ⟨hgeom, ht⟩
  have hrows := vgaInit_vgaHeight_le f
  have hcols := vgaInit_vgaWidth_le hw
  exact ⟨by rw [apply_geom, hgeom], apply_bookkept ht (hgeom ▸ hrows) (hgeom ▸ hcols)⟩

theorem history_bookkeptOn {f : Framebuffer} (hw : f.width < 65536)
    (hH : 1 ≤ (vgaInit f).vgaHeight) (fb : Nat → UInt32) (color : UInt8) (ops : List Op) :
    BookkeptOn f (history f fb color ops) :=
  foldl_invariant (apply_bookkeptOn hw) (started_bookkeptOn hH fb color)

theorem history_append (f : Framebuffer) (fb : Nat → UInt32) (color : UInt8)
    (ops ops' : List Op) :
    history f fb color (ops ++ ops') = ops'.foldl Op.apply (history f fb color ops) := by
  rw [history, List.foldl_append, history]

/-- In every state of every history the cursor is on the screen, its row is no longer than its
column, and the rows below are empty. -/
theorem history_bookkept (f : Framebuffer) (fb : Nat → UInt32) (color : UInt8) (ops : List Op)
    (hw : f.width < 65536) (hH : 1 ≤ (vgaInit f).vgaHeight) :
    let t := history f fb color ops
    (t.cursorRow : Int) < (vgaInit f).vgaHeight ∧
      (t.lineLen.len t.cursorRow).toNat ≤ t.cursorColumn ∧
      ∀ r : Nat, t.cursorRow < r → (r : Int) < (vgaInit f).vgaHeight → t.lineLen.len r = 0 := by
  obtain ⟨hgeom, ht⟩ := history_bookkeptOn hw hH fb color ops
  exact ⟨hgeom ▸ ht.row, ht.length_le, fun r hr hlt => ht.empty r hr (hgeom ▸ hlt)⟩

/-- A screen of 640x480 pixels, after a character, a newline and a backspace. -/
theorem history_bookkept_vga :
    let t := history vga640 (fun _ => 0) 0x0F [.putc 97 0x0F, .putc 10 0x0F, .putc 8 0x0F]
    (640 < 65536 ∧ 1 ≤ (vgaInit vga640).vgaHeight) ∧
      (t.cursorRow : Int) < (vgaInit vga640).vgaHeight ∧
      (t.lineLen.len t.cursorRow).toNat ≤ t.cursorColumn ∧
      ∀ r : Nat, t.cursorRow < r → (r : Int) < (vgaInit vga640).vgaHeight →
        t.lineLen.len r = 0 :=
  ⟨by decide,
    history_bookkept vga640 (fun _ => 0) 0x0F [.putc 97 0x0F, .putc 10 0x0F, .putc 8 0x0F]
      (by decide) (by decide)⟩

/-! ## Lengths cut to eight bits -/

/-- A character that is drawn, and not a control character. -/
def Op.Prints : Op → Prop
  | .putc c _ => 31 < signedChar c
  | .clearScreen _ => False

instance : (op : Op) → Decidable op.Prints
  | .putc _ _ => inferInstanceAs (Decidable (_ < _))
  | .clearScreen _ => inferInstanceAs (Decidable False)

/-- The store into `line_len` of a printed character, if there is one, keeps the whole of
`cursor_column + 1`. -/
def StoresColumn (t : Terminal) : Op → Prop
  | .putc c color =>
      31 < signedChar c → (t.lineLen.len t.cursorRow).toNat < t.cursorColumn + 1 →
        ((printed t c color).lineLen.len t.cursorRow).toNat = t.cursorColumn + 1
  | .clearScreen _ => True

/-- Nothing is printed beyond column 254. -/
def PrintsInByte (t : Terminal) (op : Op) : Prop :=
  op.Prints → t.cursorColumn ≤ 254

instance (t : Terminal) (op : Op) : Decidable (PrintsInByte t op) :=
  inferInstanceAs (Decidable (_ → _))

/-- The length of a row behind a printed character. -/
theorem printed_length (h : Bookkept t) (c color : UInt8) :
    ((printed t c color).lineLen.len t.cursorRow).toNat = (t.cursorColumn + 1) % 256 := by
  have hlength := h.length_le
  rw [printed_len, if_pos ⟨rfl, by omega⟩, UInt8.toNat_ofNat']

theorem storesColumn_iff (h : Bookkept t) (op : Op) : StoresColumn t op ↔ PrintsInByte t op := by
  have hlength := h.length_le
  cases op with
  | clearScreen color =>
      exact ⟨fun _ hprints => absurd hprints id, fun _ => trivial⟩
  | putc c color =>
      -- The row is no longer than the column, so the length is stored.
      have hstored : (t.lineLen.len t.cursorRow).toNat < t.cursorColumn + 1 := by omega
      have hexact : (t.cursorColumn + 1) % 256 = t.cursorColumn + 1 ↔ t.cursorColumn ≤ 254 := by
        omega
      simp only [StoresColumn, PrintsInByte, Op.Prints, printed_length h, hstored, hexact,
        forall_const]

/-! ## A row printed from its start -/

/-- A printed character is drawn and recorded, and then the cursor moves on or a row is opened. -/
theorem putc_prints (h : Bookkept t) (hcols : t.geom.vgaWidth ≤ 8191) {c color : UInt8}
    (hprints : (Op.putc c color).Prints) :
    Op.apply t (.putc c color) =
      if ((t.cursorColumn + 1 : Nat) : Int) ≥ t.geom.vgaWidth then openRow (printed t c color)
      else vgaMoveCursor (printed t c color) (t.cursorColumn + 1) t.cursorRow := by
  have hctl : ¬ signedChar c ≤ 31 := Int.not_le.2 hprints
  have hu := h.u16_column hcols (d := 1) (by decide)
  rw [Op.apply, vgaPutc, if_neg hctl, putGlyph_eq, hu]

/-- A character printed before the last column moves the cursor on by one. -/
theorem prints_move {op : Op} (h : Bookkept t) (hprints : op.Prints)
    (hroom : ((t.cursorColumn + 1 : Nat) : Int) < t.geom.vgaWidth)
    (hcols : t.geom.vgaWidth ≤ 8191) :
    (op.apply t).cursorRow = t.cursorRow ∧ (op.apply t).cursorColumn = t.cursorColumn + 1 ∧
      ((op.apply t).lineLen.len t.cursorRow).toNat = (t.cursorColumn + 1) % 256 := by
  cases op with
  | clearScreen color =>
      exact absurd hprints id
  | putc c color =>
      rw [putc_prints h hcols hprints, if_neg (Int.not_le.2 hroom)]
      exact ⟨rfl, rfl, printed_length h c color⟩

/-- As long as the characters stay before the last column, the cursor moves on with them, and the
length of the row follows modulo 256. -/
theorem prints_length {ops : List Op} (h : Bookkept t) (hrows : t.geom.vgaHeight ≤ 256)
    (hcols : t.geom.vgaWidth ≤ 8191) (hprints : ∀ op ∈ ops, op.Prints)
    (hroom : ((t.cursorColumn + ops.length : Nat) : Int) < t.geom.vgaWidth)
    (hlen : (t.lineLen.len t.cursorRow).toNat = t.cursorColumn % 256) :
    let t' := ops.foldl Op.apply t
    t'.cursorRow = t.cursorRow ∧ t'.cursorColumn = t.cursorColumn + ops.length ∧
      (t'.lineLen.len t.cursorRow).toNat = (t.cursorColumn + ops.length) % 256 := by
  induction ops generalizing t with
  | nil =>
      exact ⟨rfl, rfl, hlen⟩
  | cons op ops ih =>
      rw [List.length_cons] at hroom ⊢
      obtain ⟨hrow, hcol, hlen'⟩ :=
        prints_move h (hprints op List.mem_cons_self) (by omega) hcols
      have hgeom := apply_geom t op
      have hsum : t.cursorColumn + 1 + ops.length = t.cursorColumn + (ops.length + 1) := by omega
      have hkept : Bookkept (op.apply t) := apply_bookkept h hrows hcols
      have hrest := ih hkept (by rw [hgeom]; exact hrows)
        (by rw [hgeom]; exact hcols) (fun b hb => hprints b (List.mem_cons_of_mem op hb))
        (by rw [hgeom, hcol, hsum]; exact hroom) (by rw [hrow, hcol, hlen'])
      rw [hrow, hcol, hsum] at hrest
      exact hrest

/-- A row printed from column 0 on. -/
theorem fresh_length {f : Framebuffer} {ops : List Op} (hw : f.width < 65536)
    (h : BookkeptOn f t) (hfresh : t.cursorColumn = 0) (hprints : ∀ op ∈ ops, op.Prints)
    (hroom : (ops.length : Int) < (vgaInit f).vgaWidth) :
    let t' := ops.foldl Op.apply t
    t'.cursorRow = t.cursorRow ∧ t'.cursorColumn = ops.length ∧
      (t'.lineLen.len t.cursorRow).toNat = ops.length % 256 := by
  rcases h with ⟨hgeom, ht⟩
  have hrows := vgaInit_vgaHeight_le f
  have hcols := vgaInit_vgaWidth_le hw
  -- At column 0 the row is empty.
  have hlen := ht.length_le
  rw [← hgeom] at hrows hcols hroom
  have hrow := prints_length ht hrows hcols hprints (by rw [hfresh]; omega) (by omega)
  rw [hfresh, Nat.zero_add] at hrow
  exact hrow

/-- Along a history, every printed character stores its column without loss exactly when nothing
is printed beyond column 254.  A row of `n` characters printed behind the history gets the length
`n` exactly when `n` is at most 255. -/
theorem line_length_exact_iff (f : Framebuffer) (fb : Nat → UInt32) (color : UInt8)
    (ops : List Op) (hw : f.width < 65536) (hH : 1 ≤ (vgaInit f).vgaHeight) :
    ((∀ before op, before ++ [op] <+: ops → StoresColumn (history f fb color before) op) ↔
        Guarded Op.apply PrintsInByte (started f fb color) ops) ∧
      ∀ row : List Op, (∀ op ∈ row, op.Prints) → (row.length : Int) < (vgaInit f).vgaWidth →
        (history f fb color ops).cursorColumn = 0 →
          (((history f fb color (ops ++ row)).lineLen.len
              (history f fb color ops).cursorRow).toNat = row.length ↔ row.length ≤ 255) := by
  constructor
  · have hguard : Guarded Op.apply StoresColumn (started f fb color) ops ↔
        Guarded Op.apply PrintsInByte (started f fb color) ops :=
      guarded_congr (apply_bookkeptOn hw) (fun t op h => storesColumn_iff h.2 op)
        (started_bookkeptOn hH fb color)
    rw [← hguard]
    exact guarded_iff_prefix.symm
  · intro row hprints hroom hfresh
    have hrow := fresh_length hw (history_bookkeptOn hw hH fb color ops) hfresh hprints hroom
    rw [history_append, hrow.2.2]
    omega

/-- Two characters and a newline. -/
theorem line_length_exact_iff_vga :
    (640 < 65536 ∧ 1 ≤ (vgaInit vga640).vgaHeight) ∧
      ∀ before op, before ++ [op] <+: [.putc 97 0x0F, .putc 98 0x0F, .putc 10 0x0F] →
        StoresColumn (history vga640 (fun _ => 0) 0x0F before) op :=
  ⟨by decide,
    (line_length_exact_iff vga640 (fun _ => 0) 0x0F _ (by decide) (by decide)).1.2
      (by decide +kernel)⟩

/-- A framebuffer of 257 text columns and one text row. -/
def vga2056 : Framebuffer :=
  { width := 2056, height := 8, pitch := 8224, addressable := by decide }

/-- The 256th character of its row is stored as the length 0. -/
theorem line_length_truncated :
    2056 < 65536 ∧ 256 < (vgaInit vga2056).vgaWidth ∧ 1 ≤ (vgaInit vga2056).vgaHeight ∧
      ¬ StoresColumn (history vga2056 (fun _ => 0) 0x0F (List.replicate 255 (.putc 97 0x0F)))
        (.putc 97 0x0F) ∧
      ((history vga2056 (fun _ => 0) 0x0F (List.replicate 256 (.putc 97 0x0F))).lineLen.len
        0).toNat = 0 := by
  refine ⟨by decide, by decide, by decide, fun h => ?_, by decide +kernel⟩
  have hlen := h (by decide) (by decide +kernel)
  exact absurd hlen (by decide +kernel)

/-! ## Screens on which nothing is ever truncated -/

/-- A character printed in the last column of a row, or beyond it. -/
theorem prints_wrap {op : Op} (h : Bookkept t) (hprints : op.Prints)
    (hrows : t.geom.vgaHeight ≤ 256) (hcols : t.geom.vgaWidth ≤ 8191)
    (hlast : t.geom.vgaWidth ≤ ((t.cursorColumn + 1 : Nat) : Int)) (hcol : t.cursorColumn ≤ 254)
    (hnext : (t.cursorRow : Int) + 1 < t.geom.vgaHeight) :
    (op.apply t).cursorRow = t.cursorRow + 1 ∧ (op.apply t).cursorColumn = 0 ∧
      ((op.apply t).lineLen.len t.cursorRow).toNat = t.cursorColumn + 1 := by
  cases op with
  | clearScreen color =>
      exact absurd hprints id
  | putc c color =>
      -- There is a row below, so the screen does not scroll.
      have hopen : openRow (printed t c color) =
          vgaMoveCursor (printed t c color) 0 (t.cursorRow + 1) :=
        (openRow_eq (t := printed t c color) h.row hrows).trans (if_pos hnext)
      rw [putc_prints h hcols hprints, if_pos hlast, hopen]
      exact ⟨rfl, rfl, (printed_length h c color).trans (Nat.mod_eq_of_lt (by omega))⟩

/-- The start of the second row, below a row of length `k`. -/
structure BelowRow (f : Framebuffer) (k : Nat) (t : Terminal) : Prop where
  kept : BookkeptOn f t
  row : t.cursorRow = 1
  column : t.cursorColumn = 0
  length : (t.lineLen.len 0).toNat = k

theorem belowRow_back {f : Framebuffer} {k : Nat} (hw : f.width < 65536) (h : BelowRow f k t) :
    let t' := Op.apply t (.putc 8 0x0F)
    BookkeptOn f t' ∧ t'.cursorRow = 0 ∧ t'.cursorColumn = k := by
  have hrow := h.row
  obtain ⟨hrow', hcol', -⟩ := putBackspace_up (t := t) h.column (by omega)
  have hEq : Op.apply t (.putc 8 0x0F) = putBackspace t := vgaPutc_backspace t 0x0F
  refine ⟨apply_bookkeptOn hw t _ h.kept, ?_, ?_⟩
  · rw [hEq, hrow', hrow]
  · rw [hEq, hcol', hrow]
    exact h.length

/-- A backspace and a character make the row above longer by one. -/
theorem belowRow_grow {f : Framebuffer} {k : Nat} (hw : f.width < 65536)
    (hH : 2 ≤ (vgaInit f).vgaHeight) (hk : (vgaInit f).vgaWidth ≤ k) (hk' : k ≤ 254)
    (h : BelowRow f k t) :
    BelowRow f (k + 1) (Op.apply (Op.apply t (.putc 8 0x0F)) (.putc 97 0x0F)) := by
  obtain ⟨⟨hgeom, hkept⟩, hrow, hcol⟩ := belowRow_back hw h
  have hrows := vgaInit_vgaHeight_le f
  have hprints : (Op.putc 97 0x0F).Prints := by decide
  obtain ⟨hrow', hcol', hlen'⟩ := prints_wrap hkept hprints (by rw [hgeom]; exact hrows)
    (by rw [hgeom]; exact vgaInit_vgaWidth_le hw) (by rw [hgeom, hcol]; omega)
    (by rw [hcol]; exact hk') (by rw [hgeom, hrow]; omega)
  rw [hrow, hcol] at hlen'
  rw [hrow] at hrow'
  exact ⟨apply_bookkeptOn hw _ _ ⟨hgeom, hkept⟩, hrow', hcol', hlen'⟩

theorem prints_replicate (n : Nat) : ∀ op ∈ List.replicate n (Op.putc 97 0x0F), op.Prints := by
  intro op hop
  rw [List.eq_of_mem_replicate hop]
  decide

/-- A text of at most 255 characters that fills the first row. -/
theorem belowRow_full {f : Framebuffer} {n : Nat} (hw : f.width < 65536)
    (hn : (vgaInit f).vgaWidth = (n + 1 : Nat)) (hn' : n ≤ 254)
    (hH : 2 ≤ (vgaInit f).vgaHeight) (fb : Nat → UInt32) (color : UInt8) :
    BelowRow f (n + 1)
      (history f fb color (List.replicate n (.putc 97 0x0F) ++ [.putc 97 0x0F])) := by
  have hprints : (Op.putc 97 0x0F).Prints := by decide
  have hstart := started_bookkeptOn (f := f) (by omega) fb color
  obtain ⟨hgeom, hkept⟩ :=
    history_bookkeptOn hw (by omega) fb color (List.replicate n (.putc 97 0x0F))
  obtain ⟨hrow, hcol, -⟩ := fresh_length hw hstart rfl (prints_replicate n)
    (by rw [List.length_replicate]; omega)
  have hrow : (history f fb color (List.replicate n (.putc 97 0x0F))).cursorRow = 0 := hrow
  rw [List.length_replicate] at hcol
  have hcol : (history f fb color (List.replicate n (.putc 97 0x0F))).cursorColumn = n := hcol
  obtain ⟨hrow', hcol', hlen'⟩ := prints_wrap hkept hprints
    (by rw [hgeom]; exact vgaInit_vgaHeight_le f) (by rw [hgeom]; exact vgaInit_vgaWidth_le hw)
    (by rw [hgeom, hcol]; omega)
    (by rw [hcol]; exact hn') (by rw [hgeom, hrow]; omega)
  rw [hrow] at hrow'
  rw [hrow, hcol] at hlen'
  rw [history_append, List.foldl_cons, List.foldl_nil]
  exact ⟨apply_bookkeptOn hw _ _ ⟨hgeom, hkept⟩, hrow', hcol', hlen'⟩

/-- On a screen with a second row the first row can get every length from its width up to 255. -/
theorem exists_belowRow {f : Framebuffer} (hw : f.width < 65536) (hW : 1 ≤ (vgaInit f).vgaWidth)
    (hH : 2 ≤ (vgaInit f).vgaHeight) (fb : Nat → UInt32) (color : UInt8) {k : Nat}
    (hk : (vgaInit f).vgaWidth ≤ k) (hk' : k ≤ 255) :
    ∃ ops, BelowRow f k (history f fb color ops) := by
  obtain ⟨n, hn⟩ : ∃ n : Nat, (vgaInit f).vgaWidth = (n + 1 : Nat) :=
    ⟨(vgaInit f).vgaWidth.toNat - 1, by omega⟩
  have hnk : n + 1 ≤ k := by omega
  induction k, hnk using Nat.le_induction with
  | base =>
      exact ⟨_, belowRow_full hw hn (by omega) hH fb color⟩
  | succ m hm ih =>
      obtain ⟨ops, h⟩ := ih (by omega) (by omega)
      refine ⟨ops ++ [.putc 8 0x0F, .putc 97 0x0F], ?_⟩
      rw [history_append]
      exact belowRow_grow hw hH (by omega) (by omega) h

/-- A column beyond 254 and a character there can be reached on every other screen. -/
theorem exists_wide_column {f : Framebuffer} (hw : f.width < 65536)
    (hW : 1 ≤ (vgaInit f).vgaWidth) (hH : 1 ≤ (vgaInit f).vgaHeight)
    (hwide : ¬ ((vgaInit f).vgaHeight = 1 ∧ (vgaInit f).vgaWidth ≤ 255)) (fb : Nat → UInt32)
    (color : UInt8) : ∃ ops, (history f fb color ops).cursorColumn = 255 := by
  by_cases hcols : (vgaInit f).vgaWidth ≤ 255
  · obtain ⟨ops, h⟩ := exists_belowRow hw hW (by omega) fb color hcols (Nat.le_refl 255)
    obtain ⟨-, -, hcol⟩ := belowRow_back hw h
    refine ⟨ops ++ [.putc 8 0x0F], ?_⟩
    rw [history_append]
    exact hcol
  · obtain ⟨-, hcol, -⟩ := fresh_length hw (started_bookkeptOn hH fb color) rfl
      (prints_replicate 255) (by rw [List.length_replicate]; omega)
    rw [List.length_replicate] at hcol
    exact ⟨List.replicate 255 (.putc 97 0x0F), hcol⟩

/-- Only a screen of a single row of at most 255 columns keeps all lengths in every history.
Elsewhere column 255 can be reached, on narrow screens by printing beyond the end of a row. -/
theorem line_length_always_exact_iff (f : Framebuffer) (fb : Nat → UInt32) (color : UInt8)
    (hw : f.width < 65536) (hW : 1 ≤ (vgaInit f).vgaWidth) (hH : 1 ≤ (vgaInit f).vgaHeight) :
    (∀ ops op, StoresColumn (history f fb color ops) op) ↔
      (vgaInit f).vgaHeight = 1 ∧ (vgaInit f).vgaWidth ≤ 255 := by
  constructor
  · intro hall
    by_contra hwide
    obtain ⟨ops, hcol⟩ := exists_wide_column hw hW hH hwide fb color
    have hkept := (history_bookkeptOn hw hH fb color ops).2
    have hin := (storesColumn_iff hkept (.putc 97 0x0F)).1 (hall ops _) (by decide)
    omega
  · rintro ⟨hrow, hcols⟩ ops op
    have hg := vgaInit_hasCells hW hH
    obtain ⟨hgeom, hkept⟩ := history_bookkeptOn hw hH fb color ops
    refine (storesColumn_iff hkept op).2 (fun _ => ?_)
    -- The cursor never leaves the grid, since there is no row to go up to.
    have hreach := history_reachable hg fb color ops
    unfold Reachable at hreach
    omega

end Vga
end Feudos
