import Rebind.Text.Basic

/-!
# Source texts made to measure

Classes of any size for trying the migration on:

* `filler n`: `n` statements with balanced braces;
* `bracedFiller n`: `n` lines with stray braces in comments and string literals;
* `bigClass n`: a class with one method of `n` such lines;
* `bindViews`, `clicks`, `longClicks`: annotated fields and methods, numbered from zero;
* `Activity.source`: an activity put together from them.
-/

namespace Rebind

namespace Specimen

def body (pattern : Nat → Text) (n : Nat) : Text :=
  unlines ((List.range n).map (fun i => "        ".toList ++ pattern (i % 4)))

def statement : Nat → Text
  | 0 => "if (flag) \x7b helper(1); \x7d"
  | 1 => "count = count + 1;"
  | 2 => "String t = \"literal\";"
  | _ => "result = compute(a, b);"

def bracedStatement : Nat → Text
  | 0 => "if (a) \x7b String s = \"x\x7by\"; call(); \x7d"
  | 1 => "// stray \x7b brace in comment"
  | 2 => "/* block \x7b comment */ work();"
  | _ => "value = value + 1;"

def filler (n : Nat) : Text := body statement n

def bracedFiller (n : Nat) : Text := body bracedStatement n

def bigClass (n : Nat) : Text :=
  unlines ["public class Big \x7b", "    void work() \x7b", bracedFiller n, "    \x7d", "\x7d", ""]

/-! ## annotated members -/

def idClass (r2 : Bool) : Text := if r2 then "R2" else "R"

def resource (r2 : Bool) (word : Text) (i : Nat) : Text :=
  idClass r2 ++ ".id.".toList ++ word ++ '_' :: natText i

def viewType (i : Nat) : Text :=
  ["TextView", "Button", "ImageView", "EditText", "CheckBox", "ListView", "RecyclerView",
    "LinearLayout", "FrameLayout", "Toolbar"].getD (i % 10) ""

def bindView (r2 multiline : Bool) (i : Nat) : Text :=
  "    @BindView(" ++ resource r2 "view" i ++ [')'] ++ (if multiline then "\n    " else " ").toList
    ++ viewType i ++ " field".toList ++ natText i ++ [';']

def bindViews (n : Nat) (r2 multiline : Bool) : Text :=
  unlines ((List.range n).map (bindView r2 multiline))

def click (withView r2 : Bool) (size : Nat) (i : Nat) : Text :=
  unlines ["    @OnClick(\x7b" ++ resource r2 "view" i ++ ", ".toList ++ resource r2 "extra" i
    ++ "\x7d)".toList,
    "    public void onClick" ++ natText i ++ (if withView then "(View v)" else "()").toList
      ++ " \x7b".toList,
    filler size, "    \x7d"]

def clicks (n : Nat) (withView r2 : Bool) (size : Nat) : Text :=
  unlines ((List.range n).map (click withView r2 size))

def longClick (size : Nat) (i : Nat) : Text :=
  unlines ["    @OnLongClick(" ++ resource false "view" i ++ [')'],
    "    public boolean onLong" ++ natText i ++ "(TextView v) \x7b".toList, filler size,
    "        return true;", "    \x7d"]

/-- `n` methods for one id each, and one for two ids -/
def longClicks (n size : Nat) : Text :=
  unlines ((List.range n).map (longClick size) ++ [unlines
    ["    @OnLongClick(\x7bR.id.view_0, R.id.view_1\x7d)", "    public boolean onLongMulti() \x7b",
      "        return true;", "    \x7d"]])

/-! ## activities -/

structure Activity where
  views : Nat
  parent : Text := "AppCompatActivity"
  setsContent : Bool := true
  onCreate : Bool := true
  /-- whether `initViews` and `initListener` are there already -/
  initialisers : Bool := false
  /-- whether `onCreate` holds lookups and listeners already -/
  lookups : Bool := false
  innerHolder : Bool := false
  comments : Bool := true
  padding : Nat := 4
  size : Nat := 4

namespace Activity

def header (a : Activity) : List Text :=
  ["package com.example;", "import butterknife.BindView;", "import butterknife.OnClick;",
    "import butterknife.OnLongClick;", "import butterknife.ButterKnife;",
    "import android.view.View;", "", "public class SampleActivity extends " ++ a.parent
      ++ " implements View.OnClickListener \x7b".toList]

def commentLines : List Text :=
  ["    // a line comment with \x7b brace", "    /* block comment \x7b */", "    /* multi",
    "       line \x7b comment */", "    String s = \"brace \x7b inside\";"]

def lookupLines : List Text :=
  ["        listview = findViewById(R.id.listview);", "        tvAll = findViewById(R.id.tvAll);",
    "        tvAgent.setOnClickListener(new View.OnClickListener() \x7b", "            @Override",
    "            public void onClick(View v) \x7b doSomething(); \x7d", "        \x7d);",
    "        other.setOnClickListener(new View.OnClickListener() \x7b",
    "            public void onClick(View v) \x7b doOther(); \x7d", "        \x7d);"]

def onCreateLines (a : Activity) : List Text :=
  ["    @Override".toList, "    protected void onCreate(Bundle savedInstanceState) \x7b".toList,
    "        super.onCreate(savedInstanceState);".toList]
    ++ (if a.setsContent then ["        setContentView(R.layout.activity_main);".toList] else [])
    ++ (if a.lookups then lookupLines else [])
    ++ [filler a.padding, "        ButterKnife.bind(this);".toList, "    \x7d".toList]

def initialiserLines : List Text :=
  ["    protected void initViews() \x7b", "        super.initViews();", filler 4, "    \x7d",
    "    public void initListener() \x7b", filler 4, "    \x7d"]

def holderLines : List Text :=
  ["    class InnerHolder extends BaseHolder \x7b",
    "        @BindView(R.id.inner1) TextView field0;",
    "        @BindView(R.id.inner2) ImageView field1;",
    "        public InnerHolder(View itemView) \x7b",
    "            super(itemView);", "        \x7d", "    \x7d"]

/-- the source of an activity: the more views, the more methods, and at least one of each sort -/
def source (a : Activity) : Text :=
  unlines (a.header ++ [bindViews a.views true false]
    ++ (if a.comments then commentLines else [])
    ++ (if a.onCreate then a.onCreateLines else [])
    ++ (if a.initialisers then initialiserLines else [])
    ++ [clicks (max 1 (a.views / 3)) true false a.size, clicks 1 false false a.size,
      longClicks (max 1 (a.views / 4)) a.size]
    ++ (if a.innerHolder then holderLines else [])
    ++ ["\x7d".toList])

end Activity

end Specimen

end Rebind
