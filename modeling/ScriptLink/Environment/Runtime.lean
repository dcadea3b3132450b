import ScriptLink.Digest.Sha256
import ScriptLink.Text.Utf8

/-! # The script that answers requests

    The engine's process executes a script of this text, which the engine writes into its environment directory. The
    directory is named after the digest of the text, so that two versions never share one. -/

namespace ScriptLink.Runtime

/-- The lines of the script. -/
def lines : List String :=
  ["import net from \"node:net\";",
   "import vm from \"node:vm\";",
   "",
   "/**",
   " * Runtime executed by Node on behalf of the Python side. It connects back to",
   " * the port given on the command line and then processes newline-delimited",
   " * JSON requests, one at a time, against a single isolated vm context.",
   " *",
   " * The context is created empty: no require, no module, no exports and no",
   " * console. Scripts only get the ECMAScript built-ins.",
   " */",
   "",
   "const port = parseInt(process.argv[2], 10);",
   "",
   "// Values nested deeper than this are reported as \"complex\"",
   "const MAX_DEPTH = 100;",
   "",
   "const sandbox = vm.createContext(\x7b\x7d);",
   "const globalObj = vm.runInContext(\"globalThis\", sandbox);",
   "",
   "// Values coming from Python are built inside the context, so that arrays and",
   "// objects have the context's own prototypes.",
   "const decode = vm.runInContext(",
   "    `(function decode(node) \x7b",
   "        switch (node.t) \x7b",
   "            case \"null\":",
   "                return null;",
   "            case \"boolean\":",
   "            case \"string\":",
   "                return node.v;",
   "            case \"number\":",
   "                return typeof node.v === \"string\" ? Number(node.v) : node.v;",
   "            case \"array\": \x7b",
   "                const out = [];",
   "                for (const item of node.v) \x7b",
   "                    out.push(decode(item));",
   "                \x7d",
   "                return out;",
   "            \x7d",
   "            case \"object\": \x7b",
   "                const out = \x7b\x7d;",
   "                for (const key of Object.keys(node.v)) \x7b",
   "                    out[key] = decode(node.v[key]);",
   "                \x7d",
   "                return out;",
   "            \x7d",
   "        \x7d",
   "        throw new TypeError(\"unknown value tag: \" + node.t);",
   "    \x7d)`,",
   "    sandbox,",
   "    \x7b filename: \"jsbridge:decode\" \x7d",
   ");",
   "",
   "function encodeNumber(value) \x7b",
   "    return Number.isFinite(value) ? value : String(value);",
   "\x7d",
   "",
   "function isPlainObject(value) \x7b",
   "    return Object.prototype.toString.call(value) === \"[object Object]\";",
   "\x7d",
   "",
   "/**",
   " * Converts a JS value into its tagged representation. Whatever is not a",
   " * scalar, an array or a plain object is reported as \"complex\", and so are",
   " * references back to a value that is currently being encoded and containers",
   " * nested deeper than MAX_DEPTH.",
   " */",
   "function encode(value, parents = new Set(), depth = 0) \x7b",
   "    if (value === undefined || value === null) \x7b",
   "        return \x7b t: \"null\" \x7d;",
   "    \x7d",
   "",
   "    switch (typeof value) \x7b",
   "        case \"boolean\":",
   "            return \x7b t: \"boolean\", v: value \x7d;",
   "        case \"number\":",
   "            return \x7b t: \"number\", v: encodeNumber(value) \x7d;",
   "        case \"string\":",
   "            return \x7b t: \"string\", v: value \x7d;",
   "        case \"object\":",
   "            break;",
   "        default:",
   "            return \x7b t: \"complex\" \x7d;",
   "    \x7d",
   "",
   "    if (parents.has(value) || depth >= MAX_DEPTH) \x7b",
   "        return \x7b t: \"complex\" \x7d;",
   "    \x7d",
   "",
   "    if (Array.isArray(value)) \x7b",
   "        parents.add(value);",
   "        const out = \x7b t: \"array\", v: Array.from(value, (item) => encode(item, parents, depth + 1)) \x7d;",
   "        parents.delete(value);",
   "        return out;",
   "    \x7d",
   "",
   "    if (isPlainObject(value)) \x7b",
   "        parents.add(value);",
   "        const items = \x7b\x7d;",
   "",
   "        for (const key of Object.keys(value)) \x7b",
   "            items[key] = encode(value[key], parents, depth + 1);",
   "        \x7d",
   "",
   "        parents.delete(value);",
   "        return \x7b t: \"object\", v: items \x7d;",
   "    \x7d",
   "",
   "    return \x7b t: \"complex\" \x7d;",
   "\x7d",
   "",
   "function safeString(value, fallback) \x7b",
   "    try \x7b",
   "        return String(value);",
   "    \x7d catch (e) \x7b",
   "        return fallback;",
   "    \x7d",
   "\x7d",
   "",
   "/**",
   " * Describes anything that was thrown, Error or not",
   " */",
   "function describeError(err) \x7b",
   "    if (err !== null && (typeof err === \"object\" || typeof err === \"function\")) \x7b",
   "        let name, message, stack;",
   "",
   "        try \x7b",
   "            name = err.name;",
   "            message = err.message;",
   "            stack = err.stack;",
   "        \x7d catch (e) \x7b",
   "            // A throwing getter, we'll do with what we have",
   "        \x7d",
   "",
   "        if (typeof name === \"string\" && message !== undefined) \x7b",
   "            return \x7b",
   "                name,",
   "                message: safeString(message, \"\"),",
   "                stack: typeof stack === \"string\" ? stack : \"\",",
   "            \x7d;",
   "        \x7d",
   "    \x7d",
   "",
   "    return \x7b",
   "        name: \"Error\",",
   "        message: safeString(err, \"unknown error\"),",
   "        stack: \"\",",
   "    \x7d;",
   "\x7d",
   "",
   "function evalCode(\x7b code, filename, convert \x7d) \x7b",
   "    const result = vm.runInContext(code, sandbox, \x7b filename \x7d);",
   "    return convert ? encode(result) : \x7b t: \"null\" \x7d;",
   "\x7d",
   "",
   "function getProp(\x7b name \x7d) \x7b",
   "    if (!(name in globalObj)) \x7b",
   "        throw new ReferenceError(`no such prop: $\x7bname\x7d`);",
   "    \x7d",
   "",
   "    return encode(globalObj[name]);",
   "\x7d",
   "",
   "function callProp(\x7b name, args \x7d) \x7b",
   "    const fn = globalObj[name];",
   "",
   "    if (typeof fn !== \"function\") \x7b",
   "        throw new TypeError(`$\x7bname\x7d is not a function`);",
   "    \x7d",
   "",
   "    return encode(fn.apply(globalObj, args.map(decode)));",
   "\x7d",
   "",
   "const handlers = \x7b",
   "    eval: evalCode,",
   "    get_prop: getProp,",
   "    call_prop: callProp,",
   "\x7d;",
   "",
   "function handle(socket, message) \x7b",
   "    const \x7b type, event_id, payload \x7d = message;",
   "    const handler = Object.hasOwn(handlers, type) ? handlers[type] : undefined;",
   "",
   "    const send = (data) => socket.write(JSON.stringify(\x7b ...data, event_id \x7d) + \"\\n\");",
   "",
   "    if (!handler) \x7b",
   "        send(\x7b type: \"protocol_error\", payload: \x7b message: `unknown type: $\x7btype\x7d` \x7d \x7d);",
   "        return;",
   "    \x7d",
   "",
   "    let result;",
   "",
   "    try \x7b",
   "        result = handler(payload);",
   "    \x7d catch (err) \x7b",
   "        send(\x7b type: \"error\", payload: \x7b error: describeError(err) \x7d \x7d);",
   "        return;",
   "    \x7d",
   "",
   "    send(\x7b type: \"result\", payload: \x7b result \x7d \x7d);",
   "\x7d",
   "",
   "const socket = net.createConnection(\x7b port, host: \"::1\" \x7d, () => \x7b",
   "    let buf = \"\";",
   "",
   "    socket.setEncoding(\"utf8\");",
   "",
   "    socket.on(\"data\", (chunk) => \x7b",
   "        buf += chunk;",
   "",
   "        let idx;",
   "",
   "        while ((idx = buf.indexOf(\"\\n\")) >= 0) \x7b",
   "            const line = buf.slice(0, idx);",
   "            buf = buf.slice(idx + 1);",
   "",
   "            if (line.trim()) \x7b",
   "                handle(socket, JSON.parse(line));",
   "            \x7d",
   "        \x7d",
   "    \x7d);",
   "\x7d);",
   "",
   "// Scripts share Node's event loop: a rejected promise or an error thrown from",
   "// a callback must not take the whole runtime down with it.",
   "process.on(\"unhandledRejection\", (reason) => \x7b",
   "    const \x7b name, message \x7d = describeError(reason);",
   "    process.stderr.write(`unhandled rejection: $\x7bname\x7d: $\x7bmessage\x7d\\n`);",
   "\x7d);",
   "",
   "process.on(\"uncaughtException\", (err) => \x7b",
   "    const \x7b name, message \x7d = describeError(err);",
   "    process.stderr.write(`uncaught exception: $\x7bname\x7d: $\x7bmessage\x7d\\n`);",
   "\x7d);",
   "",
   "socket.on(\"close\", () => process.exit(0));",
   "socket.on(\"error\", () => process.exit(1));"]

/-- The bytes of the script; every line ends with a newline. -/
def bytes : List UInt8 :=
  Utf8.encode (lines.flatMap fun line => Text.ofString line ++ [0x0A])

/-- The digest of the script. -/
def signature : Text :=
  Sha256.hexDigest bytes

end ScriptLink.Runtime
