namespace ThemeSheet.ClassifierSpec

/-- A package with the modules right in it that are no packages. -/
structure Package where
  name : String
  modules : List String

/-- The packages of the program. -/
def ownPackages : List Package :=
  [⟨"cssvars", ["classifiers", "errors", "naming", "scanning"]⟩,
   ⟨"cssvars.cli", ["generate", "inspect", "main", "options", "watch"]⟩,
   ⟨"cssvars.engine", ["controller", "debounce", "output"]⟩,
   ⟨"cssvars.evaluator", ["evaluator", "functions"]⟩,
   ⟨"cssvars.events", ["bus", "types"]⟩,
   ⟨"cssvars.extraction", ["extract", "locator", "normalizer"]⟩,
   ⟨"cssvars.formatting", ["tools"]⟩,
   ⟨"cssvars.model", ["config", "outcome", "target", "variables"]⟩,
   ⟨"cssvars.stylesheet", ["generator"]⟩,
   ⟨"cssvars.watch", ["poller"]⟩]

/-- The packages of the libraries around it. -/
def libraryPackages : List Package :=
  [⟨"__phello__", ["spam"]⟩,
   ⟨"asyncio", ["base_events", "base_futures", "base_subprocess", "base_tasks", "constants",
     "coroutines", "events", "exceptions", "format_helpers", "futures", "locks", "log", "mixins",
     "proactor_events", "protocols", "queues", "runners", "selector_events", "sslproto",
     "staggered", "streams", "subprocess", "taskgroups", "tasks", "threads", "timeouts",
     "transports", "trsock", "unix_events"]⟩,
   ⟨"click", ["_compat", "_termui_impl", "_textwrap", "core", "decorators", "exceptions",
     "formatting", "globals", "parser", "shell_completion", "termui", "testing", "types",
     "utils"]⟩,
   ⟨"collections", ["abc"]⟩,
   ⟨"concurrent", []⟩,
   ⟨"concurrent.futures", ["_base", "process", "thread"]⟩,
   ⟨"ctypes", ["_aix", "_endian", "util", "wintypes"]⟩,
   ⟨"ctypes.macholib", ["dyld", "dylib", "framework"]⟩,
   ⟨"curses", ["ascii", "has_key", "panel", "textpad"]⟩,
   ⟨"dbm", ["dumb", "gnu", "ndbm"]⟩,
   ⟨"distutils", ["_msvccompiler", "archive_util", "bcppcompiler", "ccompiler", "cmd", "config",
     "core", "cygwinccompiler", "debug", "dep_util", "dir_util", "dist", "errors", "extension",
     "fancy_getopt", "file_util", "filelist", "log", "msvccompiler", "spawn", "sysconfig",
     "text_file", "unixccompiler", "util", "version", "versionpredicate"]⟩,
   ⟨"distutils.command", ["bdist", "bdist_dumb", "bdist_rpm", "build", "build_clib", "build_ext",
     "build_py", "build_scripts", "check", "clean", "config", "install", "install_data",
     "install_egg_info", "install_headers", "install_lib", "install_scripts", "register", "sdist",
     "upload"]⟩,
   ⟨"email", ["_encoded_words", "_header_value_parser", "_parseaddr", "_policybase", "base64mime",
     "charset", "contentmanager", "encoders", "errors", "feedparser", "generator", "header",
     "headerregistry", "iterators", "message", "parser", "policy", "quoprimime", "utils"]⟩,
   ⟨"email.mime", ["application", "audio", "base", "image", "message", "multipart",
     "nonmultipart", "text"]⟩,
   ⟨"encodings", ["aliases", "ascii", "base64_codec", "big5", "big5hkscs", "bz2_codec", "charmap",
     "cp037", "cp1006", "cp1026", "cp1125", "cp1140", "cp1250", "cp1251", "cp1252", "cp1253",
     "cp1254", "cp1255", "cp1256", "cp1257", "cp1258", "cp273", "cp424", "cp437", "cp500",
     "cp720", "cp737", "cp775", "cp850", "cp852", "cp855", "cp856", "cp857", "cp858", "cp860",
     "cp861", "cp862", "cp863", "cp864", "cp865", "cp866", "cp869", "cp874", "cp875", "cp932",
     "cp949", "cp950", "euc_jis_2004", "euc_jisx0213", "euc_jp", "euc_kr", "gb18030", "gb2312",
     "gbk", "hex_codec", "hp_roman8", "hz", "idna", "iso2022_jp", "iso2022_jp_1", "iso2022_jp_2",
     "iso2022_jp_2004", "iso2022_jp_3", "iso2022_jp_ext", "iso2022_kr", "iso8859_1", "iso8859_10",
     "iso8859_11", "iso8859_13", "iso8859_14", "iso8859_15", "iso8859_16", "iso8859_2",
     "iso8859_3", "iso8859_4", "iso8859_5", "iso8859_6", "iso8859_7", "iso8859_8", "iso8859_9",
     "johab", "koi8_r", "koi8_t", "koi8_u", "kz1048", "latin_1", "mac_arabic", "mac_croatian",
     "mac_cyrillic", "mac_farsi", "mac_greek", "mac_iceland", "mac_latin2", "mac_roman",
     "mac_romanian", "mac_turkish", "palmos", "ptcp154", "punycode", "quopri_codec",
     "raw_unicode_escape", "rot_13", "shift_jis", "shift_jis_2004", "shift_jisx0213", "tis_620",
     "undefined", "unicode_escape", "utf_16", "utf_16_be", "utf_16_le", "utf_32", "utf_32_be",
     "utf_32_le", "utf_7", "utf_8", "utf_8_sig", "uu_codec", "zlib_codec"]⟩,
   ⟨"ensurepip", ["_uninstall"]⟩,
   ⟨"html", ["entities", "parser"]⟩,
   ⟨"http", ["client", "cookiejar", "cookies", "server"]⟩,
   ⟨"idlelib", []⟩,
   ⟨"importlib", ["_abc", "_bootstrap", "_bootstrap_external", "abc", "machinery", "readers",
     "simple", "util"]⟩,
   ⟨"importlib.metadata", ["_adapters", "_collections", "_functools", "_itertools", "_meta",
     "_text"]⟩,
   ⟨"importlib.resources", ["_adapters", "_common", "_itertools", "_legacy", "abc", "readers",
     "simple"]⟩,
   ⟨"json", ["decoder", "encoder", "scanner", "tool"]⟩,
   ⟨"lark", ["ast_utils", "common", "exceptions", "grammar", "indenter", "lark", "lexer",
     "load_grammar", "parse_tree_builder", "parser_frontends", "reconstruct", "tree",
     "tree_matcher", "tree_templates", "utils", "visitors"]⟩,
   ⟨"lark.grammars", []⟩,
   ⟨"lark.parsers", ["cyk", "earley", "earley_common", "earley_forest", "grammar_analysis",
     "lalr_analysis", "lalr_interactive_parser", "lalr_parser", "lalr_parser_state", "xearley"]⟩,
   ⟨"lark.tools", ["nearley", "serialize", "standalone"]⟩,
   ⟨"lib2to3", ["btm_matcher", "btm_utils", "fixer_base", "fixer_util", "main", "patcomp",
     "pygram", "pytree", "refactor"]⟩,
   ⟨"lib2to3.fixes", []⟩,
   ⟨"lib2to3.pgen2", ["conv", "driver", "grammar", "literals", "parse", "pgen", "token",
     "tokenize"]⟩,
   ⟨"logging", ["config", "handlers"]⟩,
   ⟨"multiprocessing", ["connection", "context", "forkserver", "heap", "managers", "pool",
     "popen_fork", "popen_forkserver", "popen_spawn_posix", "process", "queues", "reduction",
     "resource_sharer", "resource_tracker", "shared_memory", "sharedctypes", "spawn",
     "synchronize", "util"]⟩,
   ⟨"multiprocessing.dummy", ["connection"]⟩,
   ⟨"pip", []⟩,
   ⟨"pkg_resources", []⟩,
   ⟨"pydoc_data", ["topics"]⟩,
   ⟨"re", ["_casefix", "_compiler", "_constants", "_parser"]⟩,
   ⟨"setuptools", []⟩,
   ⟨"sqlite3", ["dbapi2", "dump"]⟩,
   ⟨"tkinter", ["colorchooser", "commondialog", "constants", "dialog", "dnd", "filedialog",
     "font", "messagebox", "scrolledtext", "simpledialog", "tix", "ttk"]⟩,
   ⟨"tomllib", ["_parser", "_re", "_types"]⟩,
   ⟨"unittest", ["_log", "async_case", "case", "loader", "main", "mock", "result", "runner",
     "signals", "suite", "util"]⟩,
   ⟨"urllib", ["error", "parse", "request", "response", "robotparser"]⟩,
   ⟨"venv", []⟩,
   ⟨"wsgiref", ["handlers", "headers", "simple_server", "types", "util", "validate"]⟩,
   ⟨"xml", []⟩,
   ⟨"xml.dom", ["NodeFilter", "domreg", "expatbuilder", "minicompat", "minidom", "pulldom",
     "xmlbuilder"]⟩,
   ⟨"xml.etree", ["ElementInclude", "ElementPath", "ElementTree", "cElementTree"]⟩,
   ⟨"xml.parsers", ["expat"]⟩,
   ⟨"xml.sax", ["_exceptions", "expatreader", "handler", "saxutils", "xmlreader"]⟩,
   ⟨"xmlrpc", ["client", "server"]⟩,
   ⟨"zoneinfo", ["_common", "_tzpath", "_zoneinfo"]⟩]

/-- The modules that are no packages and in none. -/
def looseModules : List String :=
  ["__future__", "__hello__", "__main__", "_abc", "_aix_support", "_ast", "_asyncio", "_bisect",
   "_blake2", "_bootsubprocess", "_bz2", "_codecs", "_codecs_cn", "_codecs_hk", "_codecs_iso2022",
   "_codecs_jp", "_codecs_kr", "_codecs_tw", "_collections", "_collections_abc", "_compat_pickle",
   "_compression", "_contextvars", "_crypt", "_csv", "_ctypes", "_curses", "_curses_panel",
   "_datetime", "_dbm", "_decimal", "_elementtree", "_functools", "_hashlib", "_heapq", "_imp",
   "_io", "_json", "_locale", "_lsprof", "_lzma", "_markupbase", "_md5", "_multibytecodec",
   "_multiprocessing", "_opcode", "_operator", "_osx_support", "_pickle", "_posixshmem",
   "_posixsubprocess", "_py_abc", "_pydecimal", "_pyio", "_queue", "_random", "_sha1", "_sha256",
   "_sha3", "_sha512", "_signal", "_sitebuiltins", "_socket", "_sqlite3", "_sre", "_ssl", "_stat",
   "_statistics", "_string", "_strptime", "_struct", "_symtable", "_thread", "_threading_local",
   "_tkinter", "_tokenize", "_tracemalloc", "_typing", "_uuid", "_warnings", "_weakref",
   "_weakrefset", "_xxsubinterpreters", "_zoneinfo", "abc", "aifc", "antigravity", "argparse",
   "array", "ast", "asynchat", "asyncore", "atexit", "audioop", "base64", "bdb", "binascii",
   "bisect", "builtins", "bz2", "cProfile", "calendar", "cgi", "cgitb", "chunk", "cmath", "cmd",
   "code", "codecs", "codeop", "colorsys", "compileall", "configparser", "contextlib",
   "contextvars", "copy", "copyreg", "crypt", "csv", "dataclasses", "datetime", "decimal",
   "difflib", "dis", "doctest", "enum", "errno", "faulthandler", "fcntl", "filecmp", "fileinput",
   "fnmatch", "fractions", "ftplib", "functools", "gc", "genericpath", "getopt", "getpass",
   "gettext", "glob", "graphlib", "grp", "gzip", "hashlib", "heapq", "hmac", "imaplib", "imghdr",
   "imp", "inspect", "io", "ipaddress", "itertools", "keyword", "linecache", "locale", "lzma",
   "mailbox", "mailcap", "marshal", "math", "mimetypes", "mmap", "modulefinder", "netrc",
   "nntplib", "ntpath", "nturl2path", "numbers", "opcode", "operator", "optparse", "os",
   "ossaudiodev", "pathlib", "pdb", "pickle", "pickletools", "pipes", "pkgutil", "platform",
   "plistlib", "poplib", "posix", "posixpath", "pprint", "profile", "pstats", "pty", "pwd",
   "py_compile", "pyclbr", "pydoc", "pyexpat", "queue", "quopri", "random", "readline", "reprlib",
   "resource", "rlcompleter", "runpy", "sched", "secrets", "select", "selectors", "shelve",
   "shlex", "shutil", "signal", "site", "smtpd", "smtplib", "sndhdr", "socket", "socketserver",
   "spwd", "sre_compile", "sre_constants", "sre_parse", "ssl", "stat", "statistics", "string",
   "stringprep", "struct", "subprocess", "sunau", "symtable", "sys", "sysconfig", "syslog",
   "tabnanny", "tarfile", "telnetlib", "tempfile", "termios", "textwrap", "this", "threading",
   "time", "timeit", "token", "tokenize", "trace", "traceback", "tracemalloc", "tty", "turtle",
   "types", "typing", "unicodedata", "uu", "uuid", "warnings", "wave", "weakref", "webbrowser",
   "xdrlib", "xxsubtype", "zipapp", "zipfile", "zipimport", "zlib"]

/-- The modules that are found under another module although that is no package. -/
def innerModules : List String := ["os.path", "typing.io", "typing.re"]

/-- The modules that are there but refuse to load, with what they say. -/
def refusingModules : List (String × String) :=
  [("asyncio.windows_events", "win32 only"), ("asyncio.windows_utils", "win32 only"),
   ("distutils.msvc9compiler", "No module named 'winreg'"),
   ("multiprocessing.popen_spawn_win32", "No module named 'msvcrt'")]

end ThemeSheet.ClassifierSpec
