import Rebind.Findings.Detect
import Rebind.Injection.OnCreate
import Rebind.Layout
import Rebind.Project.Workspace

/-!
# Trying single steps on a sample

Each demonstration prints what one step makes of a short piece of source: the search for `onCreate`,
the patterns of the annotations, and the layout.
-/

namespace Rebind

namespace Sample

def method : Text :=
  unlines ["    @Override", "    protected void onCreate(Bundle savedInstanceState) \x7b",
    "        super.onCreate(savedInstanceState);",
    "        setContentView(R.layout.activity_main);",
    "        // 绑定ButterKnife", "        // 其他初始化代码",
    "        titleText.setText(\"Hello World\");", "    \x7d"]

def block : Text :=
  unlines ["        // 初始化View绑定",
    "        titleText = (TextView) findViewById(R.id.title_text);",
    "        submitButton = (Button) findViewById(R.id.submit_button);",
    "        cancelButton = (Button) findViewById(R.id.cancel_button);", "",
    "        // 初始化点击事件",
    "        submitButton.setOnClickListener(new View.OnClickListener() \x7b",
    "            @Override", "            public void onClick(View v) \x7b",
    "                onButtonClick(v);", "            \x7d", "        \x7d);"]

/-- the offset behind the first block that opens after the first brace of `code`, or that of the
first brace itself -/
def afterFirstBlock (code : Text) : Job Nat := do
  let start := (code.takeWhile (· != '\x7b')).length + 1
  match closingBrace 0 (code.drop start) with
  | some i =>
    let stop := start + i + 1
    Job.say ("Method end found at position: " ++ natText stop)
    Job.say ("Code before end: " ++ quoted (code.take stop))
    Job.say ("Code after end: " ++ quoted (code.drop stop))
    return stop
  | none => return start

def injection : Job Unit := do
  Job.say "=== 调试代码注入逻辑 ==="
  let found := onCreateMethod.search method
  Job.say "onCreate pattern test:"
  Job.say ("Match found: " ++ (Value.bool found.isSome).shown)
  match found with
  | none => return
  | some m =>
    Job.say ("Match: " ++ quoted m.text)
    Job.say ("Start: " ++ natText m.start ++ ", End: ".toList ++ natText m.stop)
    Job.say "\n=== 测试方法结束位置查找 ==="
    let stop ← afterFirstBlock method
    Job.say "\n=== 测试代码注入 ==="
    Job.say ("原始代码长度: " ++ natText method.length)
    Job.say ("onCreate开始: " ++ natText m.stop)
    Job.say ("onCreate结束: " ++ natText stop)
    if m.stop < stop then
      Job.say "\n=== 注入后的代码 ==="
      Job.say (method.take stop ++ '\n' :: block ++ "\n    ".toList ++ method.drop stop)

def annotated : Text :=
  unlines ["", "    @BindView(R.id.listview) ListView listview;",
    "    @BindView(R.id.tvAll) TextView tvAll;",
    "    @OnClick(\x7bR.id.tvAgent, R.id.tvapw, R.id.tvRefresh\x7d)",
    "    public void onClick(View view) \x7b", "        // 方法内容", "    \x7d", "    "]

def groupsText (p : Pattern) (groups : List Nat) (code : Text) : Text :=
  let tuple (m : Match) : Text :=
    '(' :: List.intercalate ", ".toList (groups.map (fun n => quoted (m.group n))) ++ [')']
  '[' :: List.intercalate ", ".toList ((p.findAll code).map tuple) ++ [']']

def patterns : Job Unit := do
  Job.say "测试内容:"
  Job.say annotated
  Job.say (List.replicate 50 '=')
  Job.say "测试@BindView模式:"
  Job.say ("匹配结果: " ++ groupsText annotatedField [1, 2, 3] annotated)
  Job.say "测试@OnClick模式:"
  Job.say ("匹配结果: " ++ groupsText annotatedClick [1, 2] annotated)

def crowded : Text :=
  unlines ["", "    @BindView(R.id.listview) ListView listview;",
    "    @BindView(R.id.tvAll) TextView tvAll;", "    @OnClick(R.id.button) void onClick() \x7b",
    "        // method body", "    \x7d", "    "]

def layout : Job Unit := do
  Job.say "原始内容:"
  Job.say crowded
  Job.say "\n格式化后:"
  Job.say (layOut crowded)

end Sample

end Rebind
